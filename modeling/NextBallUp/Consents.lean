import NextBallUp.Events.Windows
import NextBallUp.Lib.Ranking

/-!
# The consent to training

The review feedback that coaches export says whether commercial models may be trained with it, and
by which consent of the team. The export takes the latest consent that is neither revoked nor
expired. It does not ask whether the consent has taken effect, as uploads do.

## Main definitions

* `TeamPrivacyConsent`, `consentIsCurrent`: the rows, and which of them are current
* `exportReviewFeedback`: the feedback in the package
* `consentInForce`: the latest current consent
* `FollowsConsent`, `HasSilentPending`: what the feedback has to say, and when it does

## Main results

* `latestActiveTrainingConsent_eq`: **a pending consent is taken before one that is in force**
* `followsConsent_iff`: **when the feedback follows the consent in force**
* `exists_not_followsConsent`: a pending consent that allows what the one in force does not
-/

namespace NextBallUp.Consents

open Events

/-- A row of `team_privacy_consents`. -/
structure TeamPrivacyConsent where
  id : ℕ
  teamId : TeamId
  coversCvProcessing : Bool
  commercialMlTrainingAllowed : Bool
  effectiveAt : Time
  expiresAt : Option Time
  revokedAt : Option Time
  createdAt : Time
  deriving DecidableEq, Repr

variable {consents : List TeamPrivacyConsent} {consent : TeamPrivacyConsent} {teamId : TeamId}
  {events : List VideoEvent} {video : Events.Video} {reviewStatus : ReviewStatus}
  {generatedAt now : Time}

/-! ### The export -/

/-- `_consent_is_current` -/
def consentIsCurrent (consent : TeamPrivacyConsent) (now : Time) : Bool :=
  consent.revokedAt = none && consent.effectiveAt ≤ now &&
    consent.expiresAt.all fun t : Time => now < t

/-- The rows that `_latest_active_training_consent` selects. -/
def isActive (teamId : TeamId) (now : Time) (consent : TeamPrivacyConsent) : Bool :=
  consent.teamId = teamId && consent.revokedAt = none &&
    consent.expiresAt.all fun t : Time => now < t

/-- `effective_at DESC, created_at DESC` -/
def orderKey (consent : TeamPrivacyConsent) : Timeᵒᵈ ×ₗ Timeᵒᵈ :=
  toLex (OrderDual.toDual consent.effectiveAt, OrderDual.toDual consent.createdAt)

/-- The first row in this order. Of rows that were made and took effect at the same times it is the
one that stands first in the table, whose order is arbitrary. -/
def latest (consents : List TeamPrivacyConsent) : Option TeamPrivacyConsent :=
  (Keyset.orderBy orderKey consents).head?

/-- `_latest_active_training_consent` -/
def latestActiveTrainingConsent (consents : List TeamPrivacyConsent) (teamId : TeamId)
    (now : Time) : Option TeamPrivacyConsent := latest (consents.filter (isActive teamId now))

structure Governance where
  reviewOnly : Bool
  notProductionAnalytics : Bool
  includesVideoBytes : Bool
  includesSignedUrls : Bool
  commercialTrainingAllowed : Bool
  commercialTrainingConsentId : Option ℕ
  globalModelTrainingRequiresOperatorRightsReview : Bool
  deriving DecidableEq, Repr

structure FeedbackExample where
  eventId : EventId
  videoId : VideoId
  label : VideoEventType
  reviewStatus : ReviewStatus
  accepted : Bool
  source : VideoEventSourceValue
  clipStartTimeMs : ℤ
  clipEndTimeMs : ℤ
  eventTimeMs : ℤ

/-- What is written to `review_feedback.json`. -/
structure ReviewFeedback where
  schemaVersion : String
  videoId : VideoId
  teamId : TeamId
  reviewStatus : ReviewStatus
  generatedAt : Time
  governance : Governance
  examples : List FeedbackExample

/-- The consent covers training. -/
def TeamPrivacyConsent.allowsTraining (consent : TeamPrivacyConsent) : Bool :=
  consent.coversCvProcessing && consent.commercialMlTrainingAllowed

/-- The `governance` of the feedback. -/
def governance (consent : Option TeamPrivacyConsent) : Governance :=
  let commercialTrainingAllowed := consent.any TeamPrivacyConsent.allowsTraining
  { reviewOnly := true
    notProductionAnalytics := true
    includesVideoBytes := false
    includesSignedUrls := false
    commercialTrainingAllowed := commercialTrainingAllowed
    commercialTrainingConsentId :=
      if commercialTrainingAllowed then consent.map TeamPrivacyConsent.id else none
    globalModelTrainingRequiresOperatorRightsReview := true }

def feedbackExample (row : ExportRow) : FeedbackExample where
  eventId := row.eventId
  videoId := row.videoId
  label := row.eventType
  reviewStatus := row.reviewStatus
  accepted := row.reviewStatus = .approved
  source := row.source
  clipStartTimeMs := row.clipStartTimeMs
  clipEndTimeMs := row.clipEndTimeMs
  eventTimeMs := row.eventTimeMs

/-- `_render_review_feedback_manifest` -/
def renderReviewFeedbackManifest (video : Events.Video) (reviewStatus : ReviewStatus)
    (generatedAt : Time) (rows : List ExportRow) (consent : Option TeamPrivacyConsent) :
    ReviewFeedback where
  schemaVersion := "nextballup_alpha_review_feedback_v1"
  videoId := video.id
  teamId := video.teamId
  reviewStatus := reviewStatus
  generatedAt := generatedAt
  governance := governance consent
  examples := rows.map feedbackExample

/-- `clip_start_time_ms, event_time_ms`, where an event without a start comes last. -/
def windowKey (row : VideoEvent) : WithTop ℤ ×ₗ ℤ :=
  toLex (row.clipStartTimeMs.elim ⊤ fun start => (start : WithTop ℤ), row.eventTimeMs)

/-- The feedback in the package of `export_video_events`. The route reads the clock once for the
package and once for the consent. -/
def exportReviewFeedback (consents : List TeamPrivacyConsent) (events : List VideoEvent)
    (video : Events.Video) (reviewStatus : ReviewStatus) (generatedAt now : Time) :
    ReviewFeedback :=
  let rows := Keyset.orderBy windowKey
    (events.filter fun row => row.videoId = video.id && row.reviewStatus = reviewStatus)
  let safeRows := rows.map fun row => safeEventExportRow row video
  let consent := latestActiveTrainingConsent consents video.teamId now
  renderReviewFeedbackManifest video reviewStatus generatedAt safeRows consent

/-! ### The consent in force -/

/-- The latest of the consents of the team that are current. -/
def consentInForce (consents : List TeamPrivacyConsent) (teamId : TeamId) (now : Time) :
    Option TeamPrivacyConsent :=
  latest (consents.filter fun consent => consent.teamId = teamId && consentIsCurrent consent now)

/-- The consent would be current if it had taken effect. -/
def isPending (teamId : TeamId) (now : Time) (consent : TeamPrivacyConsent) : Bool :=
  isActive teamId now consent && now < consent.effectiveAt

/-- The latest of the consents of the team that are pending. -/
def latestPending (consents : List TeamPrivacyConsent) (teamId : TeamId) (now : Time) :
    Option TeamPrivacyConsent := latest (consents.filter (isPending teamId now))

/-- The feedback allows training if the consent in force does, and names it. It says the same if
there are only the current consents. -/
structure FollowsConsent (consents : List TeamPrivacyConsent) (events : List VideoEvent)
    (video : Events.Video) (reviewStatus : ReviewStatus) (generatedAt now : Time) : Prop where
  allowed_iff : (exportReviewFeedback consents events video reviewStatus generatedAt
      now).governance.commercialTrainingAllowed = true ↔
    ∃ consent ∈ consentInForce consents video.teamId now,
      consent.coversCvProcessing = true ∧ consent.commercialMlTrainingAllowed = true
  names : (exportReviewFeedback consents events video reviewStatus generatedAt
      now).governance.commercialTrainingAllowed = true →
    ∃ consent ∈ consentInForce consents video.teamId now,
      (exportReviewFeedback consents events video reviewStatus generatedAt
        now).governance.commercialTrainingConsentId = some consent.id
  current_only : exportReviewFeedback (consents.filter fun consent => consentIsCurrent consent now)
      events video reviewStatus generatedAt now =
    exportReviewFeedback consents events video reviewStatus generatedAt now

/-- Where consents are pending, neither the latest of them nor the one in force allows training. -/
def HasSilentPending (consents : List TeamPrivacyConsent) (teamId : TeamId) (now : Time) : Prop :=
  ∀ pending ∈ latestPending consents teamId now, pending.allowsTraining = false ∧
    ∀ consent ∈ consentInForce consents teamId now, consent.allowsTraining = false

theorem mem_of_mem_latest (h : consent ∈ latest consents) : consent ∈ consents :=
  (Keyset.head?_orderBy h).1

/-- **A consent that is pending is taken before one that is in force.** -/
theorem latestActiveTrainingConsent_eq (consents : List TeamPrivacyConsent) (teamId : TeamId)
    (now : Time) : latestActiveTrainingConsent consents teamId now =
      (latestPending consents teamId now).or (consentInForce consents teamId now) := by
  have hbefore : ∀ r ∈ consents.filter (isActive teamId now),
      ∀ r' ∈ consents.filter (isActive teamId now),
      decide (now < r.effectiveAt) = true → decide (now < r'.effectiveAt) = false →
        orderKey r < orderKey r' := by
    intro r _ r' _ hr hr'
    have hlt : r'.effectiveAt < r.effectiveAt :=
      (not_lt.mp (of_decide_eq_false hr')).trans_lt (of_decide_eq_true hr)
    exact Prod.Lex.toLex_lt_toLex.mpr (.inl (OrderDual.toDual_lt_toDual.mpr hlt))
  have hpending : (fun r => decide (now < r.effectiveAt) && isActive teamId now r) =
      isPending teamId now := by
    funext r
    rw [isPending, Bool.and_comm]
  have hcurrent : (fun r : TeamPrivacyConsent => (!decide (now < r.effectiveAt)) &&
      isActive teamId now r) = fun r => r.teamId = teamId && consentIsCurrent r now := by
    funext r
    rw [isActive, consentIsCurrent, ← decide_not, decide_eq_decide.mpr not_lt]
    ac_rfl
  rw [latestActiveTrainingConsent, latest, Keyset.head?_orderBy_or hbefore, List.filter_filter,
    List.filter_filter, hpending, hcurrent]
  rfl

/-- Among the current consents none is pending. -/
theorem latestPending_filter (consents : List TeamPrivacyConsent) (teamId : TeamId) (now : Time) :
    latestPending (consents.filter fun consent => consentIsCurrent consent now) teamId now =
      none := by
  have hnil : (consents.filter fun consent => consentIsCurrent consent now).filter
      (isPending teamId now) = [] := by
    rw [List.filter_filter, List.filter_eq_nil_iff]
    intro consent _ h
    simp only [isPending, consentIsCurrent, Bool.and_eq_true, decide_eq_true_eq] at h
    exact absurd h.1.2 (not_lt.mpr h.2.1.2)
  rw [latestPending, hnil]
  rfl

theorem consentInForce_filter (consents : List TeamPrivacyConsent) (teamId : TeamId) (now : Time) :
    consentInForce (consents.filter fun consent => consentIsCurrent consent now) teamId now =
      consentInForce consents teamId now := by
  rw [consentInForce, consentInForce, List.filter_filter]
  simp only [Bool.and_assoc, Bool.and_self]

theorem mem_of_latestPending (h : consent ∈ latestPending consents teamId now) :
    consent ∈ consents ∧ now < consent.effectiveAt := by
  obtain ⟨hmem, hpending⟩ := List.mem_filter.mp (mem_of_mem_latest h)
  rw [isPending, Bool.and_eq_true, decide_eq_true_iff] at hpending
  exact ⟨hmem, hpending.2⟩

theorem mem_of_consentInForce (h : consent ∈ consentInForce consents teamId now) :
    consent ∈ consents ∧ consent.effectiveAt ≤ now := by
  obtain ⟨hmem, hcurrent⟩ := List.mem_filter.mp (mem_of_mem_latest h)
  simp only [consentIsCurrent, Bool.and_eq_true, decide_eq_true_eq] at hcurrent
  exact ⟨hmem, hcurrent.2.1.2⟩

theorem allowsTraining_iff : consent.allowsTraining = true ↔
    consent.coversCvProcessing = true ∧ consent.commercialMlTrainingAllowed = true := by
  rw [TeamPrivacyConsent.allowsTraining, Bool.and_eq_true]

/-- All consents that do not allow training give the same feedback, which is that of no consent. -/
theorem governance_eq {found : Option TeamPrivacyConsent}
    (h : ∀ consent ∈ found, consent.allowsTraining = false) :
    governance found = governance none := by
  cases found with
  | none => rfl
  | some consent =>
    rw [governance, Option.any_some, h consent rfl]
    rfl

theorem commercialTrainingConsentId_of_allowed {found : Option TeamPrivacyConsent}
    (h : (governance found).commercialTrainingAllowed = true) :
    (governance found).commercialTrainingConsentId = found.map TeamPrivacyConsent.id := if_pos h

theorem governance_export (consents : List TeamPrivacyConsent) (events : List VideoEvent)
    (video : Events.Video) (reviewStatus : ReviewStatus) (generatedAt now : Time) :
    (exportReviewFeedback consents events video reviewStatus generatedAt now).governance =
      governance ((latestPending consents video.teamId now).or
        (consentInForce consents video.teamId now)) := by
  rw [← latestActiveTrainingConsent_eq]
  rfl

/-- The feedback for the consent in force is what it has to be. -/
theorem followsConsent_of_governance
    (h : (exportReviewFeedback consents events video reviewStatus generatedAt now).governance =
      governance (consentInForce consents video.teamId now)) :
    FollowsConsent consents events video reviewStatus generatedAt now := by
  refine ⟨?_, ?_, ?_⟩
  · rw [h]
    show (consentInForce consents video.teamId now).any TeamPrivacyConsent.allowsTraining = true ↔ _
    rw [Option.any_eq_true]
    exact exists_congr fun consent => and_congr_right fun _ => allowsTraining_iff
  · rw [h]
    intro hallowed
    obtain ⟨consent, hconsent, -⟩ := (Option.any_eq_true _ _).mp hallowed
    refine ⟨consent, hconsent, ?_⟩
    rw [commercialTrainingConsentId_of_allowed hallowed, Option.mem_def.mp hconsent,
      Option.map_some]
  · have hgovernance : (exportReviewFeedback
        (consents.filter fun consent => consentIsCurrent consent now) events video reviewStatus
          generatedAt now).governance =
        (exportReviewFeedback consents events video reviewStatus generatedAt now).governance := by
      rw [h, governance_export, latestPending_filter, consentInForce_filter, Option.none_or]
    exact congrArg (fun g =>
      { exportReviewFeedback consents events video reviewStatus generatedAt now with
        governance := g }) hgovernance

/-- **When the feedback follows the consent in force.** -/
theorem followsConsent_iff (h : (consents.map TeamPrivacyConsent.id).Nodup)
    (events : List VideoEvent) (video : Events.Video) (reviewStatus : ReviewStatus)
    (generatedAt now : Time) :
    FollowsConsent consents events video reviewStatus generatedAt now ↔
      HasSilentPending consents video.teamId now := by
  constructor
  · intro hfollows pending hpending
    have hgovernance : (exportReviewFeedback consents events video reviewStatus generatedAt
        now).governance = governance (some pending) := by
      rw [governance_export, Option.mem_def.mp hpending, Option.some_or]
    have hallowed_iff := hfollows.allowed_iff
    have hnames := hfollows.names
    rw [hgovernance] at hallowed_iff hnames
    have hsilent : pending.allowsTraining = false := by
      by_contra hallows
      rw [Bool.not_eq_false] at hallows
      obtain ⟨consent, hconsent, hid⟩ := hnames hallows
      have hallowed : (governance (some pending)).commercialTrainingAllowed = true := hallows
      rw [commercialTrainingConsentId_of_allowed hallowed, Option.map_some,
        Option.some.injEq] at hid
      -- The consent in force would be the one that is pending.
      obtain ⟨hmem, hlater⟩ := mem_of_latestPending hpending
      obtain ⟨hmem', hnow⟩ := mem_of_consentInForce hconsent
      rw [List.inj_on_of_nodup_map h hmem hmem' hid] at hlater
      exact absurd hnow (not_le.mpr hlater)
    refine ⟨hsilent, fun consent hconsent => ?_⟩
    by_contra hallows
    rw [Bool.not_eq_false] at hallows
    have hallowed : pending.allowsTraining = true :=
      hallowed_iff.mpr ⟨consent, hconsent, allowsTraining_iff.mp hallows⟩
    rw [hsilent] at hallowed
    exact Bool.false_ne_true hallowed
  · intro hsilent
    refine followsConsent_of_governance ?_
    rw [governance_export]
    cases hpending : latestPending consents video.teamId now with
    | none => rw [Option.none_or]
    | some pending =>
      obtain ⟨hpendingSilent, hforceSilent⟩ := hsilent pending hpending
      rw [Option.some_or, governance_eq hforceSilent]
      refine governance_eq fun consent hconsent => ?_
      rw [← Option.some.inj hconsent]
      exact hpendingSilent

/-- A consent to training that is in force. -/
def sampleConsent : TeamPrivacyConsent where
  id := 1
  teamId := 0
  coversCvProcessing := true
  commercialMlTrainingAllowed := true
  effectiveAt := 10
  expiresAt := some 100
  revokedAt := none
  createdAt := 10

/-- The package names it, whatever was revoked. -/
theorem exists_followsConsent : ∃ consents events video,
    (consentInForce consents video.teamId 50).map TeamPrivacyConsent.id = some 1 ∧
    FollowsConsent consents events video .approved 50 50 := by
  refine ⟨[{ sampleConsent with id := 2, effectiveAt := 60, revokedAt := some 40 }, sampleConsent],
    [], sampleVideo 30, rfl,
      (followsConsent_iff (by decide) _ _ _ _ _).mpr fun pending hpending => ?_⟩
  exact (Option.not_mem_none pending hpending).elim

/-- A consent of next week that does not allow training. -/
def sampleRestriction : TeamPrivacyConsent :=
  { sampleConsent with id := 2, commercialMlTrainingAllowed := false, effectiveAt := 60 }

/-- **A pending consent speaks for the one in force.** Here it hides one that allows training. -/
theorem exists_not_followsConsent : ∃ consents events video now,
    (consents.map TeamPrivacyConsent.id).Nodup ∧
    ¬ FollowsConsent consents events video .approved now now := by
  refine ⟨[sampleConsent, sampleRestriction], [], sampleVideo 30, 50, by decide, fun hfollows => ?_⟩
  have hallowed := hfollows.allowed_iff.mpr ⟨sampleConsent, rfl, rfl, rfl⟩
  exact absurd hallowed (by decide)

end NextBallUp.Consents
