import NextBallUp.Rows
import NextBallUp.Lib.Doubles
import NextBallUp.Lib.Json

/-!
# Rows of video events

A video event is a moment of a video with the window of a clip around it. Events come from the
candidate tags of the demo preview, which the worker imports, and from coaches. Coaches review both
and move their windows.

Numbers that the source holds in floating point are rationals here, and the results of the
operations on them are rounded as an `Arithmetic` says. That of the code is double precision. The
windows and the proposals are the same functions in exact arithmetic, too.

## Main definitions

* `Duration`, `Arithmetic`: durations, and how the source computes with them
* `Video`, `VideoEvent`: the columns
* `Metadata`: `event_metadata`
* `VideoEvent.fits`: what the table `video_events` takes
* `durationMs`: the duration of a video, as the API has it

## What is deliberately absent

Numbers so large that an operation on them is infinite, and values that are no numbers: the code
raises an exception for them, which is the subject of `NextBallUp.EventColumns`.

Columns that are only passed through: the period, the clocks and the track of an event, and the
model artifact. Metadata that is not there at all is the empty `dict`, since every reader treats
the two alike.
-/

namespace NextBallUp.Events

/-- The primary key of an event. -/
abbrev EventId := ℕ

inductive VideoEventType
  | shotAttempt | shotMade | rebound | pass
  deriving DecidableEq, Repr

def VideoEventType.value : VideoEventType → String
  | .shotAttempt => "shot_attempt"
  | .shotMade => "shot_made"
  | .rebound => "rebound"
  | .pass => "pass"

inductive ReviewStatus
  | machineOnly | needsReview | approved | rejected
  deriving DecidableEq, Repr

def ReviewStatus.value : ReviewStatus → String
  | .machineOnly => "machine_only"
  | .needsReview => "needs_review"
  | .approved => "approved"
  | .rejected => "rejected"

/-! ### Numbers -/

/-- `int(number)`: towards zero. -/
def int (q : ℚ) : ℤ := q.num.tdiv q.den

/-- `round(number)` -/
def round (q : ℚ) : ℤ := roundEven q

inductive NumberError
  /-- A quotient, or an infinity that is converted to an integer. -/
  | overflowError
  /-- No number that is converted to an integer. -/
  | valueError
  deriving DecidableEq, Repr

/-- What `int` and `round` convert. -/
def exactly : Double → Except NumberError ℚ
  | .finite q => .ok q
  | .infinity _ => .error .overflowError
  | .nan => .error .valueError

/-- `int(seconds * 1000)` in double precision. -/
def millis (seconds : Double) : Except NumberError ℤ :=
  (exactly (seconds.mul (.finite 1000))).map int

/-- A duration in double precision that is a number of milliseconds, too. -/
structure Duration where
  seconds : ℚ
  ms : ℤ
  millis_eq : millis (.finite seconds) = .ok ms

/-- How the source computes with times and scores. -/
class Arithmetic (δ : Type) where
  seconds : δ → ℚ
  /-- `int(seconds * 1000)` -/
  millis : δ → ℤ
  /-- What an operation makes of its exact result. -/
  nearest : ℚ → ℚ

/-- The arithmetic of the columns. -/
instance : Arithmetic Duration := ⟨Duration.seconds, Duration.ms, Double.nearest⟩

/-- Exact arithmetic. -/
instance : Arithmetic ℚ := ⟨id, fun d => int (d * 1000), id⟩

theorem int_intCast (n : ℤ) : int n = n := by
  rw [int, Rat.num_intCast, Rat.den_intCast, Nat.cast_one, Int.tdiv_one]

theorem int_eq_floor {q : ℚ} (h : 0 ≤ q) : int q = ⌊q⌋ := by
  rw [int, Rat.floor_def']
  exact Int.tdiv_eq_ediv_of_nonneg (Rat.num_nonneg.mpr h)

/-- Whole seconds. -/
def Duration.ofFin (seconds : Fin (2 ^ 43)) : Duration where
  seconds := (seconds : ℕ)
  ms := (seconds : ℕ) * 1000
  millis_eq := by
    have hlt : (seconds : ℕ) * 1000 < 2 ^ 53 := by omega
    have hmul : (Double.finite (seconds : ℕ)).mul (.finite 1000) =
        .finite (((seconds : ℕ) * 1000 : ℕ) : ℚ) := by
      rw [← Double.ofRat_natCast hlt, Nat.cast_mul]
      rfl
    have hint := int_intCast (((seconds : ℕ) * 1000 : ℕ) : ℤ)
    rw [millis, hmul]
    show Except.ok (int (((seconds : ℕ) * 1000 : ℕ) : ℚ)) = _
    exact congrArg Except.ok hint

/-! ### Videos -/

/-- The columns of `videos` that events depend on. -/
structure VideoOf (δ : Type) where
  id : VideoId
  teamId : TeamId
  status : VideoStatus
  durationSeconds : Option δ
  fps : Option ℚ

/-- A row of `videos`. -/
abbrev Video := VideoOf Duration

section Arithmetic

variable {δ : Type} [Arithmetic δ] (video : VideoOf δ)

/-- `_duration_ms(video)` -/
def durationMs : Option ℤ :=
  match video.durationSeconds with
  | some d => if Arithmetic.seconds d = 0 then none else some (Arithmetic.millis d)
  | none => none

/-- `_estimated_output_frame` -/
def estimatedOutputFrame (eventTimeMs : ℤ) : ℤ :=
  let fps := match video.fps with
    | some fps => if 0 < fps then fps else 30
    | none => 30
  let nearest := Arithmetic.nearest δ
  max 0 (round (nearest (nearest (eventTimeMs / 1000) * fps)))

end Arithmetic

/-- A processed video of a given duration. -/
def sampleVideoOf {δ : Type} (durationSeconds : δ) : VideoOf δ where
  id := 0
  teamId := 0
  status := .processed
  durationSeconds := some durationSeconds
  fps := some 30

/-- A processed video of so many seconds, fewer than `2 ^ 43`. -/
def sampleVideo (seconds : ℕ) : Video := sampleVideoOf (.ofFin (Fin.ofNat (2 ^ 43) seconds))

/-! ### Events -/

/-- `event_metadata` -/
abbrev Metadata := Json.Fields ℕ

/-- A text of the source as a JSON value. -/
def text (s : String) : Json ℕ := .str s.codePoints

/-- A `dict` whose keys are texts of the source. -/
def dict (fields : List (String × Json ℕ)) : Metadata :=
  fields.map fun f => (f.1.codePoints, f.2)

theorem get_dict_cons (key key' : String) (value : Json ℕ) (fields : List (String × Json ℕ)) :
    (dict ((key, value) :: fields)).get key' =
      if key = key' then value else (dict fields).get key' := by
  show (if codes key.codePoints = key'.codePoints then value else _) = _
  rw [codes_nat, if_congr String.codePoints_inj rfl rfl]
  rfl

/-- A row of `video_events`. -/
structure VideoEvent where
  id : EventId
  videoId : VideoId
  teamId : TeamId
  eventType : VideoEventType
  eventTimeMs : ℤ
  clipStartTimeMs : Option ℤ
  clipEndTimeMs : Option ℤ
  outputFrame : ℤ
  shotClockEnabled : Bool
  confidence : Option ℚ
  reviewStatus : ReviewStatus
  eventMetadata : Metadata
  createdAt : Time

/-- `_MANUAL_EVENT_SOURCE` -/
def manualEventSource : String := "coach_manual_alpha_tag"

/-- `_ALPHA_CANDIDATE_SOURCE` -/
def alphaCandidateSource : String := "restricted_bard_lora_alpha_video_windows"

namespace VideoEvent

/-- `metadata.get("source") == source` -/
def hasSource (row : VideoEvent) (source : String) : Bool :=
  (row.eventMetadata.get "source").isText source

/-- The values of `BigInteger`. -/
def IsBigInteger (n : ℤ) : Prop := -2 ^ 63 ≤ n ∧ n < 2 ^ 63

instance (n : ℤ) : Decidable (IsBigInteger n) := inferInstanceAs (Decidable (_ ∧ _))

/-- The values of `Integer`. -/
def IsInteger (n : ℤ) : Prop := -2 ^ 31 ≤ n ∧ n < 2 ^ 31

instance (n : ℤ) : Decidable (IsInteger n) := inferInstanceAs (Decidable (_ ∧ _))

/-- A string that JSONB takes: no null character and no surrogates. -/
def isStorable (s : List ℕ) : Bool := s.all fun c => c ≠ 0 && !(0xD800 ≤ c && c ≤ 0xDFFF)

/-- `ck_video_events_clip_window_nonnegative` -/
def windowNonnegative (row : VideoEvent) : Bool :=
  (row.clipStartTimeMs.all (0 ≤ ·)) && row.clipEndTimeMs.all (0 ≤ ·)

/-- `ck_video_events_clip_window_order` -/
def windowOrder (row : VideoEvent) : Bool :=
  match row.clipStartTimeMs, row.clipEndTimeMs with
  | some s, some e => s < e
  | _, _ => true

/-- What the table takes: its checks hold, and every value is one of the type of its column. -/
def fits (row : VideoEvent) : Bool :=
  row.windowNonnegative && row.windowOrder && IsBigInteger row.eventTimeMs &&
    row.clipStartTimeMs.all (IsBigInteger ·) && row.clipEndTimeMs.all (IsBigInteger ·) &&
    IsInteger row.outputFrame && (Json.stringsOfFields row.eventMetadata).all isStorable

end VideoEvent

end NextBallUp.Events
