import NextBallUp.Preview.Rows
import NextBallUp.Lib.RenamedFiles
import NextBallUp.Lib.Datetimes
import NextBallUp.Lib.JsonBytes
import NextBallUp.Lib.JsonErrors
import NextBallUp.Lib.JsonReads
import NextBallUp.Lib.Texts
import Mathlib.Data.List.Lex
import Mathlib.Data.List.Sort

/-!
# The state file of a demo preview

The text of the state file, as it is written and read, and the functions that resolve and mark the
state. They run in the API and in the worker at once, call by call.

## Main definitions

* `DemoPreviewState`, `stateText`, `readDemoPreviewState`: a state, its text, and what is read
* `resolveDemoPreviewState`, `markDemoPreviewRunning`, …: the functions, as programs
* `IsSound`: what a state that is stored looks like
* `Caller`: a process that calls these functions, by what they have returned

## Main results

* `readDemoPreviewState_stateText`: **a state is read as it was written**
* `exists_registers_of_reach`: **the state files are registers, which hold sound states**

## What is deliberately absent

The artifact: its time is told by the surroundings. Locks, and surrogates in messages. The formats
of times that are not written.
-/

namespace NextBallUp.Preview.StateFile

open RenamedFiles (Program Codec)

/-! ### States -/

structure DemoPreviewState where
  status : DemoPreviewStatus
  requestedAt : Option Datetime := none
  startedAt : Option Datetime := none
  generatedAt : Option Datetime := none
  taskId : Option (List ℕ) := none
  errorMessage : Option (List ℕ) := none

def statusText : DemoPreviewStatus → String
  | .idle => "idle"
  | .queued => "queued"
  | .running => "running"
  | .completed => "completed"
  | .failed => "failed"

/-- The status with this text. -/
def statusOfText (text : List ℕ) : Option DemoPreviewStatus :=
  [.idle, .queued, .running, .completed, .failed].find? fun s => (statusText s).codePoints = text

/-! ### Writing -/

def datetimeToJson (value : Option Datetime) : Json ℕ :=
  match value with
  | some t => .str t.isoformat
  | none => .null

/-- A text, or `None`. -/
def textToJson (value : Option (List ℕ)) : Json ℕ :=
  match value with
  | some text => .str text
  | none => .null

/-- The dictionary that `_write_demo_preview_state` dumps. -/
def payload (state : DemoPreviewState) : Json.Fields ℕ :=
  [("status".codePoints, .str (statusText state.status).codePoints),
    ("requested_at".codePoints, datetimeToJson state.requestedAt),
    ("started_at".codePoints, datetimeToJson state.startedAt),
    ("generated_at".codePoints, datetimeToJson state.generatedAt),
    ("task_id".codePoints, textToJson state.taskId),
    ("error_message".codePoints, textToJson state.errorMessage)]

/-- `sort_keys=True` -/
def sortedPayload (state : DemoPreviewState) : Json.Fields ℕ :=
  (payload state).insertionSort fun f g => f.1 ≤ g.1

/-- What is written to the file. -/
def stateText (state : DemoPreviewState) : List ℕ :=
  JsonText.dumpsWith [32] (.obj (sortedPayload state)) ++ [10]

/-! ### Reading -/

/-- The exceptions that `_read_demo_preview_state` does not catch. -/
inductive ReadError
  | unicodeDecodeError
  /-- An integer with too many digits. -/
  | valueError
  | recursionError
  /-- The payload has no `get`. -/
  | attributeError
  /-- The status has no hash. -/
  | typeError
  | overflowError
  deriving DecidableEq, Repr

/-- How text files are read. -/
def universalNewlines : List ℕ → List ℕ
  | [] => []
  | 13 :: 10 :: rest => 10 :: universalNewlines rest
  | c :: rest => (if c = 13 then 10 else c) :: universalNewlines rest

/-- The time with these fields. -/
def datetimeOfFields (f : Fields) : Option Datetime :=
  if h : f.IsValid then some ⟨f, h⟩ else none

/-- The year, the month and the day of a number of days. -/
def dateOfOrdinal (n : ℕ) : Option (ℕ × ℕ × ℕ) := do
  -- A year has 365 days, or 366.
  let year ← (List.range' (n / 366) (n / 365 + 2 - n / 366)).find?
    fun y => n ≤ daysBeforeYear (y + 1)
  let day := n - daysBeforeYear year
  let month ← (List.range' 1 12).find? fun m =>
    day ≤ daysBeforeMonth (isLeap year) m + daysInMonth (isLeap year) m
  return (year, month, day - daysBeforeMonth (isLeap year) month)

/-- The time that is so many microseconds after the calendar began. -/
def datetimeOfInstant (instant : ℕ) : Option Datetime := do
  let seconds := instant / 1000000
  let (year, month, day) ← dateOfOrdinal (seconds / 86400)
  datetimeOfFields ⟨year, month, day, seconds / 3600 % 24, seconds / 60 % 60, seconds % 60,
    instant % 1000000⟩

/-- `astimezone(UTC)`, of a time with this offset. -/
def astimezone (f : Fields) (offset : ℤ) : Option Datetime :=
  if offset = 0 then datetimeOfFields f
  else if (f.instant : ℤ) < offset then none
  else datetimeOfInstant ((f.instant : ℤ) - offset).toNat

-- Two hours before half past one.
example : (astimezone ⟨2026, 3, 1, 1, 30, 0, 7⟩ 7200000000).map (·.toFields) =
    some ⟨2026, 2, 28, 23, 30, 0, 7⟩ := by decide

/-- `_datetime_from_json` -/
def datetimeFromJson (value : Json CodePoint) : Except ReadError (Option Datetime) :=
  match value with
  | .str s =>
    match fromisoformat (codes s) with
    | none => .ok none
    | some (f, none) => .ok (datetimeOfFields f)
    | some (f, some offset) =>
      match astimezone f offset with
      | some t => .ok (some t)
      | none => .error .overflowError
  | _ => .ok none

/-- `value if isinstance(value, str) else None` -/
def textFromJson : Json CodePoint → Option (List ℕ)
  | .str s => some (codes s)
  | _ => none

/-- The state in a payload. -/
def stateOfPayload (fields : Json.Fields CodePoint) :
    Except ReadError (Option DemoPreviewState) :=
  match fields.get "status" with
  | .str s =>
    match statusOfText (codes s) with
    | none => .ok none
    | some status => do
      let requestedAt ← datetimeFromJson (fields.get "requested_at")
      let startedAt ← datetimeFromJson (fields.get "started_at")
      let generatedAt ← datetimeFromJson (fields.get "generated_at")
      return some
        { status := status
          requestedAt := requestedAt
          startedAt := startedAt
          generatedAt := generatedAt
          taskId := textFromJson (fields.get "task_id")
          errorMessage := textFromJson (fields.get "error_message") }
  | .arr _ | .obj _ => .error .typeError
  | _ => .ok none

/-- `_read_demo_preview_state`, of a file with these bytes. -/
def readDemoPreviewState (recursionLimit : ℕ) (bytes : List ℕ) :
    Except ReadError (Option DemoPreviewState) :=
  match JsonText.decodeStrict bytes with
  | none => .error .unicodeDecodeError
  | some text =>
    match JsonText.loadsRaising recursionLimit (universalNewlines text) with
    | .ok (.obj fields) => stateOfPayload fields
    | .ok _ => .error .attributeError
    | .error .jsonDecodeError => .ok none
    | .error .valueError => .error .valueError
    | .error .recursionError => .error .recursionError

/-! ### A state is read as it was written -/

/-- The texts of the state hold no surrogates. -/
def HasTexts (state : DemoPreviewState) : Prop :=
  (∀ text ∈ state.taskId, JsonText.IsText text) ∧
    ∀ text ∈ state.errorMessage, JsonText.IsText text

section RoundTrip

variable {state : DemoPreviewState} {limit : ℕ}

theorem statusOfText_codePoints (status : DemoPreviewStatus) :
    statusOfText (statusText status).codePoints = some status := by
  cases status <;> decide

theorem datetimeOfFields_toFields (t : Datetime) : datetimeOfFields t.toFields = some t :=
  dif_pos t.isValid

theorem datetimeFromJson_datetimeToJson (value : Option Datetime) :
    datetimeFromJson (datetimeToJson value).mark = .ok value := by
  cases value with
  | none => rfl
  | some t =>
    rw [datetimeToJson, Json.mark, datetimeFromJson]
    rw [JsonText.codes_map_mark, fromisoformat_isoformat]
    have hutc : astimezone t.toFields 0 = some t := by
      rw [astimezone, if_pos rfl, datetimeOfFields_toFields]
    simp only [hutc]

theorem textFromJson_textToJson (value : Option (List ℕ)) :
    textFromJson (textToJson value).mark = value := by
  cases value with
  | none => rfl
  | some text =>
    rw [textToJson, Json.mark, textFromJson, JsonText.codes_map_mark]

theorem sortedPayload_perm (state : DemoPreviewState) :
    (sortedPayload state).Perm (payload state) :=
  List.perm_insertionSort ..

theorem nodup_payload (state : DemoPreviewState) : ((payload state).map Prod.fst).Nodup := by
  show ["status".codePoints, "requested_at".codePoints, "started_at".codePoints,
    "generated_at".codePoints, "task_id".codePoints, "error_message".codePoints].Nodup
  decide

theorem get_sortedPayload (state : DemoPreviewState) (key : String) :
    (Json.markFields (sortedPayload state)).get key = ((payload state).get key).mark := by
  have hnodup : ((sortedPayload state).map Prod.fst).Nodup :=
    ((sortedPayload_perm state).map Prod.fst).nodup_iff.mpr (nodup_payload state)
  rw [JsonText.get_markFields, JsonText.get_perm (sortedPayload_perm state) key hnodup]

theorem writable_datetimeToJson (value : Option Datetime) (room : ℕ) :
    JsonText.Writable room (datetimeToJson value) := by
  cases value with
  | none => trivial
  | some t => exact fun c hc => .inl ((lt_of_mem_isoformat hc).trans_lt (by decide))

theorem writable_textToJson {value : Option (List ℕ)} (h : ∀ text ∈ value, JsonText.IsText text)
    (room : ℕ) : JsonText.Writable room (textToJson value) := by
  cases value with
  | none => trivial
  | some text => exact h text rfl

theorem writable_payload (h : HasTexts state) (room : ℕ) :
    ∀ f ∈ payload state, JsonText.IsText f.1 ∧ JsonText.Writable room f.2 := by
  simp only [payload, List.forall_mem_cons, JsonText.isText_codePoints, writable_datetimeToJson,
    writable_textToJson h.1, writable_textToJson h.2, true_and, and_true, List.not_mem_nil,
    IsEmpty.forall_iff, implies_true]
  exact JsonText.isText_codePoints _

theorem writable_sortedPayload (h : HasTexts state) (hlimit : 0 < limit) :
    JsonText.Writable limit (.obj (sortedPayload state)) := by
  refine ⟨hlimit, ?_, ?_⟩
  · exact ((sortedPayload_perm state).map Prod.fst).nodup_iff.mpr (nodup_payload state)
  · exact JsonText.writableFields_iff.mpr fun f hf =>
      writable_payload h _ f ((sortedPayload_perm state).subset hf)

/-- The text has no control character but the line feed at its end. -/
theorem range_stateText (h : HasTexts state) {c : ℕ} (hc : c ∈ stateText state) :
    c ≠ 13 ∧ c < 128 := by
  rcases List.mem_append.mp hc with hc | hc
  · have hprint := JsonText.printable_dumpsWith (by decide) _
      (writable_sortedPayload h Nat.one_pos) c hc
    omega
  · rw [List.mem_singleton.mp hc]
    decide

theorem universalNewlines_eq {text : List ℕ} (h : ∀ c ∈ text, c ≠ 13) :
    universalNewlines text = text := by
  induction text with
  | nil => rfl
  | cons c rest ih =>
    have hc : c ≠ 13 := h c List.mem_cons_self
    rw [universalNewlines.eq_3 _ _ fun _ hc' => (hc hc').elim, if_neg hc,
      ih fun d hd => h d (List.mem_cons_of_mem _ hd)]

theorem stateOfPayload_sortedPayload (state : DemoPreviewState) :
    stateOfPayload (Json.markFields (sortedPayload state)) = .ok (some state) := by
  have hstatus : ((payload state).get "status") = .str (statusText state.status).codePoints := rfl
  have hrequested : (payload state).get "requested_at" = datetimeToJson state.requestedAt := rfl
  have hstarted : (payload state).get "started_at" = datetimeToJson state.startedAt := rfl
  have hgenerated : (payload state).get "generated_at" = datetimeToJson state.generatedAt := rfl
  have htask : (payload state).get "task_id" = textToJson state.taskId := rfl
  have herror : (payload state).get "error_message" = textToJson state.errorMessage := rfl
  rw [stateOfPayload, get_sortedPayload, hstatus, Json.mark]
  simp only [JsonText.codes_map_mark, statusOfText_codePoints, get_sortedPayload, hrequested,
    hstarted, hgenerated, htask, herror, datetimeFromJson_datetimeToJson,
    textFromJson_textToJson]
  rfl

/-- **A state is read as it was written.** -/
theorem readDemoPreviewState_stateText (h : HasTexts state) (hlimit : 0 < limit) :
    readDemoPreviewState limit (stateText state) = .ok (some state) := by
  have hascii : JsonText.decodeStrict (stateText state) = some (stateText state) :=
    JsonText.decodeStrict_ascii fun c hc => (range_stateText h hc).2
  have hloads : JsonText.loads limit (stateText state) =
    .ok (Json.obj (sortedPayload state)).mark :=
    JsonText.loads_dumpsWith (by decide) (by decide) (writable_sortedPayload h hlimit)
  have hraising : JsonText.loadsRaising limit (stateText state) =
      .ok (.obj (Json.markFields (sortedPayload state))) := by
    rw [← JsonText.mapError_loadsRaising] at hloads
    cases hr : JsonText.loadsRaising limit (stateText state) with
    | ok value =>
      rw [hr] at hloads
      exact congrArg _ (Except.ok.inj hloads)
    | error e =>
      rw [hr] at hloads
      cases hloads
  rw [readDemoPreviewState, hascii]
  simp only [universalNewlines_eq fun c hc => (range_stateText h hc).1, hraising]
  exact stateOfPayload_sortedPayload state

end RoundTrip

/-! ### Messages -/

/-- `[\x00-\x1F\x7F-\x9F]` -/
def isControl (c : ℕ) : Bool := c ≤ 31 || 127 ≤ c && c ≤ 159

/-- `_CONTROL_CHARS.sub(" ", …)`; a run of control characters may have begun. -/
def subControls (within : Bool) : List ℕ → List ℕ
  | [] => []
  | c :: rest =>
    if isControl c then if within then subControls true rest else 32 :: subControls true rest
    else c :: subControls false rest

/-- `split()`, after the beginning of a word. -/
def words (word : List ℕ) : List ℕ → List (List ℕ)
  | [] => if word = [] then [] else [word]
  | c :: rest =>
    if isWhitespace c then if word = [] then words [] rest else word :: words [] rest
    else words (word ++ [c]) rest

/-- `_normalized_error_message` -/
def normalizedErrorMessage (message : List ℕ) : List ℕ :=
  let cleaned := strip isWhitespace (subControls false message)
  let collapsed := [32].intercalate (words [] cleaned)
  if collapsed ≠ [] then collapsed.take 1000 else "Local demo preview failed".codePoints

theorem mem_subControls {within : Bool} {message : List ℕ} {c : ℕ}
    (h : c ∈ subControls within message) : c = 32 ∨ c ∈ message := by
  induction message generalizing within with
  | nil => cases h
  | cons d rest ih =>
    have hrest {within : Bool} (h : c ∈ subControls within rest) : c = 32 ∨ c ∈ d :: rest :=
      (ih h).imp_right (List.mem_cons_of_mem _)
    rw [subControls] at h
    split at h
    · split at h
      · exact hrest h
      · rcases List.mem_cons.mp h with rfl | h
        · exact .inl rfl
        · exact hrest h
    · rcases List.mem_cons.mp h with rfl | h
      · exact .inr List.mem_cons_self
      · exact hrest h

theorem mem_words {text word w : List ℕ} {c : ℕ} (hw : w ∈ words word text) (hc : c ∈ w) :
    c ∈ word ∨ c ∈ text := by
  induction text generalizing word with
  | nil =>
    rw [words] at hw
    split at hw
    · cases hw
    · exact .inl (List.mem_singleton.mp hw ▸ hc)
  | cons d rest ih =>
    have hrest {word : List ℕ} (hw : w ∈ words word rest) : c ∈ word ∨ c ∈ d :: rest :=
      (ih hw).imp_right (List.mem_cons_of_mem _)
    have hempty (hw : w ∈ words [] rest) : c ∈ word ∨ c ∈ d :: rest :=
      (hrest hw).imp_left fun hmem => by cases hmem
    rw [words] at hw
    split at hw
    · split at hw
      · exact hempty hw
      · rcases List.mem_cons.mp hw with rfl | hw
        · exact .inl hc
        · exact hempty hw
    · rcases hrest hw with hmem | hmem
      · rcases List.mem_append.mp hmem with hmem | hmem
        · exact .inl hmem
        · exact .inr (List.mem_singleton.mp hmem ▸ List.mem_cons_self)
      · exact .inr hmem

theorem mem_intercalate {texts : List (List ℕ)} {b c : ℕ} (h : c ∈ [b].intercalate texts) :
    c = b ∨ ∃ w ∈ texts, c ∈ w := by
  induction texts with
  | nil => cases h
  | cons text rest ih =>
    cases rest with
    | nil =>
      rw [List.intercalate_singleton] at h
      exact .inr ⟨text, List.mem_cons_self, h⟩
    | cons next rest =>
      rw [List.intercalate_cons_cons, List.append_assoc] at h
      rcases List.mem_append.mp h with hc | hc
      · exact .inr ⟨text, List.mem_cons_self, hc⟩
      · rcases List.mem_append.mp hc with hc | hc
        · exact .inl (List.mem_singleton.mp hc)
        · exact (ih hc).imp_right fun ⟨w, hw, hcw⟩ => ⟨w, List.mem_cons_of_mem _ hw, hcw⟩

/-- A message remains without surrogates. -/
theorem isText_normalizedErrorMessage {message : List ℕ} (h : JsonText.IsText message) :
    JsonText.IsText (normalizedErrorMessage message) := by
  have hblank : JsonText.IsScalar 32 := .inl (by decide)
  rw [normalizedErrorMessage]
  split
  · intro c hc
    rcases mem_intercalate (List.mem_of_mem_take hc) with rfl | ⟨w, hw, hcw⟩
    · exact hblank
    · rcases mem_words hw hcw with hnil | hmem
      · cases hnil
      · have hsub : c ∈ subControls false message :=
          (List.dropWhile_suffix _).subset ((List.rdropWhile_prefix _ _).subset hmem)
        rcases mem_subControls hsub with rfl | hmem
        · exact hblank
        · exact h c hmem
  · exact JsonText.isText_codePoints _

/-! ### The functions -/

/-- What the functions learn from the clock and from the other files of the video. -/
structure Surroundings where
  now : Datetime
  /-- When the artifact has been generated, if it is there. -/
  artifact : Option Datetime
  /-- No file of the video has been written for long. -/
  expired : Bool
  /-- Temporary files that are unlinked before the state file, and after it. -/
  before : List ℕ
  after : List ℕ

abbrev Reading := Except ReadError (Option DemoPreviewState)

abbrev Action := Program VideoId DemoPreviewState Reading Surroundings

/-- A text without surrogates. -/
abbrev Text := { text : List ℕ // JsonText.IsText text }

/-- `_write_demo_preview_state`; `none` is an exception. -/
def writeDemoPreviewState (video : VideoId) (state : DemoPreviewState)
    (next : Option DemoPreviewState → Action) : Action :=
  .write video state fun written => next (if written then some state else none)

/-- `_state_is_stale` -/
def isStale (S : Settings) (now : Datetime) (state : DemoPreviewState) : Bool :=
  state.status.isActive && match state.startedAt.or state.requestedAt with
    | none => true
    | some reference =>
      reference.instant + (S.cvDemoTimeoutSeconds + 60) * 1000000 < now.instant

/-- What `resolve_demo_preview_state` makes of a state that is not stale. -/
def settle (video : VideoId) (artifact : Option Datetime) (state : DemoPreviewState)
    (next : Option DemoPreviewState → Action) : Action :=
  match state.status, artifact with
  | .completed, none =>
    writeDemoPreviewState video
      { state with
        status := .failed
        generatedAt := none
        errorMessage :=
          some "Local demo preview artifact is missing after completion".codePoints } next
  | .completed, some generatedAt =>
    if state.generatedAt.map (·.toFields) ≠ some generatedAt.toFields then
      writeDemoPreviewState video
        { state with generatedAt := some generatedAt, errorMessage := none } next
    else next (some state)
  | .failed, some generatedAt =>
    writeDemoPreviewState video
      { state with
        status := .completed
        generatedAt := some generatedAt
        errorMessage := none } next
  | _, some generatedAt => next (some { state with generatedAt := some generatedAt })
  | _, none => next (some state)

/-- `resolve_demo_preview_state` -/
def resolveDemoPreviewState (S : Settings) (video : VideoId)
    (next : Option DemoPreviewState → Action) : Action :=
  if S.localDemoPreviewEnabled = false then next (some { status := .idle })
  else .ask fun found => .read video fun
    | .error _ => next none
    | .ok none =>
      match found.artifact with
      | none => next (some { status := .idle })
      | some generatedAt =>
        writeDemoPreviewState video { status := .completed, generatedAt := some generatedAt } next
    | .ok (some state) => .ask fun clock =>
      if isStale S clock.now state then
        writeDemoPreviewState video
          { state with
            status := .failed
            errorMessage :=
              some "Local demo preview job became stale before finishing".codePoints }
          fun
          | some state => settle video found.artifact state next
          | none => next none
      else settle video found.artifact state next

/-- `value or datetime.now(tz=UTC)` -/
def orNow (value : Option Datetime) (next : Datetime → Action) : Action :=
  match value with
  | some t => next t
  | none => .ask fun clock => next clock.now

/-- `task_id or current.task_id` -/
def orTask (taskId : Option Text) (current : Option (List ℕ)) : Option (List ℕ) :=
  match taskId with
  | some task => if task.1 = [] then current else some task.1
  | none => current

def markDemoPreviewRunning (S : Settings) (video : VideoId) (taskId : Text)
    (next : Option DemoPreviewState → Action) : Action :=
  resolveDemoPreviewState S video fun
    | none => next none
    | some current =>
      orNow current.requestedAt fun requestedAt => .ask fun clock =>
        writeDemoPreviewState video
          { status := .running
            requestedAt := some requestedAt
            startedAt := some clock.now
            generatedAt := current.generatedAt
            taskId := some taskId.1 } next

def markDemoPreviewQueued (S : Settings) (video : VideoId) (taskId : Option Text)
    (generatedAt requestedAt : Option Datetime) (next : Option DemoPreviewState → Action) :
    Action :=
  resolveDemoPreviewState S video fun
    | none => next none
    | some current =>
      orNow (requestedAt.or current.requestedAt) fun requestedAt =>
        writeDemoPreviewState video
          { status := .queued
            requestedAt := some requestedAt
            startedAt := none
            generatedAt := generatedAt.or current.generatedAt
            taskId := orTask taskId current.taskId } next

def markDemoPreviewFailed (S : Settings) (video : VideoId) (taskId : Option Text)
    (errorMessage : Text) (next : Option DemoPreviewState → Action) : Action :=
  resolveDemoPreviewState S video fun
    | none => next none
    | some current =>
      writeDemoPreviewState video
        { status := .failed
          requestedAt := current.requestedAt
          startedAt := current.startedAt
          generatedAt := current.generatedAt
          taskId := orTask taskId current.taskId
          errorMessage := some (normalizedErrorMessage errorMessage.1) } next

def markDemoPreviewCompleted (S : Settings) (video : VideoId) (taskId : Option Text)
    (generatedAt : Datetime) (next : Option DemoPreviewState → Action) : Action :=
  resolveDemoPreviewState S video fun
    | none => next none
    | some current =>
      orNow current.startedAt fun startedAt =>
        writeDemoPreviewState video
          { status := .completed
            requestedAt := current.requestedAt
            startedAt := some startedAt
            generatedAt := some generatedAt
            taskId := orTask taskId current.taskId } next

/-- Unlink temporary files. -/
def sweepAll (temps : List ℕ) (next : Action) : Action := temps.foldr .sweep next

/-- What `cleanup_expired_demo_previews` does with the directory of a video. -/
def cleanupExpiredDemoPreview (S : Settings) (video : VideoId)
    (next : Option DemoPreviewState → Action) : Action :=
  let remove : Action := .ask fun found =>
    if found.expired then
      sweepAll found.before (.unlink video (sweepAll found.after (next none)))
    else next none
  .read video fun
    | .error _ => next none
    | .ok none => remove
    | .ok (some state) =>
      if state.status.isActive then
        .ask fun clock => if isStale S clock.now state then remove else next (some state)
      else remove

/-- The calls of the API and of the worker. -/
inductive Call
  | resolve (video : VideoId)
  | running (video : VideoId) (taskId : Text)
  | queued (video : VideoId) (taskId : Option Text) (generatedAt requestedAt : Option Datetime)
  | failed (video : VideoId) (taskId : Option Text) (errorMessage : Text)
  | completed (video : VideoId) (taskId : Option Text) (generatedAt : Datetime)
  | cleanup (video : VideoId)

def Call.action (S : Settings) (next : Option DemoPreviewState → Action) : Call → Action
  | .resolve video => resolveDemoPreviewState S video next
  | .running video taskId => markDemoPreviewRunning S video taskId next
  | .queued video taskId generatedAt requestedAt =>
    markDemoPreviewQueued S video taskId generatedAt requestedAt next
  | .failed video taskId errorMessage => markDemoPreviewFailed S video taskId errorMessage next
  | .completed video taskId generatedAt => markDemoPreviewCompleted S video taskId generatedAt next
  | .cleanup video => cleanupExpiredDemoPreview S video next

/-- A process that calls the functions, by what they have returned. -/
inductive Caller
  | ended
  | call (c : Call) (next : Option DemoPreviewState → Caller)

def Caller.action (S : Settings) : Caller → Action
  | .ended => .ended
  | .call c next => c.action S fun result => (next result).action S

/-! ### Stored states -/

/-- What a state that is stored looks like. -/
structure IsSound (state : DemoPreviewState) : Prop where
  texts : HasTexts state
  status : state.status ≠ .idle
  queued : state.status = .queued → state.requestedAt.isSome ∧ state.startedAt = none
  running : state.status = .running →
    state.requestedAt.isSome ∧ state.startedAt.isSome ∧ state.taskId.isSome
  completed : state.status = .completed → state.generatedAt.isSome
  failed : state.status = .failed ↔ state.errorMessage.isSome

/-- How sound states are written and read. -/
def codec (limit : ℕ) (hlimit : 0 < limit) : Codec DemoPreviewState ℕ Reading where
  valid := IsSound
  encode := stateText
  decode := readDemoPreviewState limit
  view state := .ok (some state)
  absent := .ok none
  decode_encode _ h := readDemoPreviewState_stateText h.texts hlimit

section Obeys

variable {S : Settings} {limit : ℕ} {hlimit : 0 < limit} {video : VideoId}
  {state : DemoPreviewState} {next : Option DemoPreviewState → Action}

/-- A caller goes on well with whatever it gets. -/
def GoesOn (limit : ℕ) (hlimit : 0 < limit) (next : Option DemoPreviewState → Action) : Prop :=
  ∀ result : Option DemoPreviewState, (∀ state ∈ result, HasTexts state) →
    (next result).Obeys (codec limit hlimit)

theorem GoesOn.none (h : GoesOn limit hlimit next) : (next none).Obeys (codec limit hlimit) :=
  h _ fun _ hs => by cases hs

theorem GoesOn.some (h : GoesOn limit hlimit next) (hs : HasTexts state) :
    (next (some state)).Obeys (codec limit hlimit) :=
  h _ fun _ hs' => Option.some.inj hs' ▸ hs

theorem obeys_write (hs : IsSound state) (hsome : (next (some state)).Obeys (codec limit hlimit))
    (hnone : (next none).Obeys (codec limit hlimit)) :
    (writeDemoPreviewState video state next).Obeys (codec limit hlimit) := by
  refine ⟨hs, fun written => ?_⟩
  cases written with
  | true => exact hsome
  | false => exact hnone

theorem isText_of_mem_some {message text : List ℕ} (hmessage : JsonText.IsText message)
    (h : text ∈ some message) : JsonText.IsText text :=
  Option.some.inj h ▸ hmessage

/-- A state that has failed, with this message. -/
theorem isSound_failed (requestedAt startedAt generatedAt : Option Datetime)
    {taskId : Option (List ℕ)} {message : List ℕ} (htask : ∀ text ∈ taskId, JsonText.IsText text)
    (hmessage : JsonText.IsText message) :
    IsSound
      { status := .failed
        requestedAt := requestedAt
        startedAt := startedAt
        generatedAt := generatedAt
        taskId := taskId
        errorMessage := some message } where
  texts := ⟨htask, fun _ => isText_of_mem_some hmessage⟩
  status h := by cases h
  queued h := by cases h
  running h := by cases h
  completed h := by cases h
  failed := ⟨fun _ => rfl, fun _ => rfl⟩

/-- A state that has been completed. -/
theorem isSound_completed (requestedAt startedAt : Option Datetime) (generatedAt : Datetime)
    {taskId : Option (List ℕ)} (htask : ∀ text ∈ taskId, JsonText.IsText text) :
    IsSound
      { status := .completed
        requestedAt := requestedAt
        startedAt := startedAt
        generatedAt := some generatedAt
        taskId := taskId } where
  texts := ⟨htask, fun _ h => by cases h⟩
  status h := by cases h
  queued h := by cases h
  running h := by cases h
  completed _ := rfl
  failed := ⟨fun h => (by cases h), fun h => (by cases h)⟩

theorem obeys_settle {artifact : Option Datetime} (hs : IsSound state)
    (h : GoesOn limit hlimit next) :
    (settle video artifact state next).Obeys (codec limit hlimit) := by
  obtain ⟨status, requestedAt, startedAt, generatedAt, taskId, errorMessage⟩ := state
  have htask : ∀ text ∈ taskId, JsonText.IsText text := hs.texts.1
  cases artifact with
  | none =>
    cases status with
    | completed =>
      have hmissing := isSound_failed requestedAt startedAt none htask
        (JsonText.isText_codePoints "Local demo preview artifact is missing after completion")
      exact obeys_write hmissing (h.some hmissing.texts) h.none
    | _ => exact h.some hs.texts
  | some generated =>
    have hcompleted := isSound_completed requestedAt startedAt generated htask
    cases status with
    | completed =>
      show Program.Obeys _ (if _ then _ else _)
      split
      · exact obeys_write hcompleted (h.some hcompleted.texts) h.none
      · exact h.some hs.texts
    | failed => exact obeys_write hcompleted (h.some hcompleted.texts) h.none
    | _ => exact h.some hs.texts

theorem obeys_resolve (h : GoesOn limit hlimit next) :
    (resolveDemoPreviewState S video next).Obeys (codec limit hlimit) := by
  have hidle : HasTexts { status := .idle } := ⟨fun _ h => (by cases h), fun _ h => (by cases h)⟩
  rw [resolveDemoPreviewState]
  split
  · exact h.some hidle
  · refine fun found => ⟨?_, fun state hs clock => ?_⟩
    · show Program.Obeys _ (match found.artifact with
        | .none => next (some { status := .idle })
        | .some generatedAt => writeDemoPreviewState video
            { status := .completed, generatedAt := some generatedAt } next)
      cases found.artifact with
      | none => exact h.some hidle
      | some generatedAt =>
        have hcompleted : IsSound { status := .completed, generatedAt := some generatedAt } :=
          isSound_completed none none generatedAt fun _ h => by cases h
        exact obeys_write hcompleted (h.some hcompleted.texts) h.none
    · dsimp only
      split
      · have hstale := isSound_failed state.requestedAt state.startedAt state.generatedAt hs.texts.1
          (JsonText.isText_codePoints "Local demo preview job became stale before finishing")
        exact obeys_write hstale (obeys_settle hstale h) h.none
      · exact obeys_settle hs h

theorem obeys_orNow {value : Option Datetime} {next : Datetime → Action}
    (h : ∀ t, (next t).Obeys (codec limit hlimit)) :
    (orNow value next).Obeys (codec limit hlimit) := by
  cases value with
  | none => exact fun clock => h clock.now
  | some t => exact h t

theorem isText_orTask {taskId : Option Text} {current : Option (List ℕ)}
    (h : ∀ text ∈ current, JsonText.IsText text) :
    ∀ text ∈ orTask taskId current, JsonText.IsText text := by
  intro text htext
  cases taskId with
  | none => exact h text htext
  | some task =>
    rw [orTask] at htext
    split at htext
    · exact h text htext
    · exact isText_of_mem_some task.2 htext

theorem obeys_running {taskId : Text} (h : GoesOn limit hlimit next) :
    (markDemoPreviewRunning S video taskId next).Obeys (codec limit hlimit) := by
  refine obeys_resolve fun result hresult => ?_
  cases result with
  | none => exact h.none
  | some current =>
    refine obeys_orNow fun requestedAt clock => ?_
    have hrunning : IsSound
        { status := .running
          requestedAt := some requestedAt
          startedAt := some clock.now
          generatedAt := current.generatedAt
          taskId := some taskId.1 } :=
      { texts := ⟨fun _ => isText_of_mem_some taskId.2, fun _ h => (by cases h)⟩
        status := fun h => (by cases h)
        queued := fun h => (by cases h)
        running := fun _ => ⟨rfl, rfl, rfl⟩
        completed := fun h => (by cases h)
        failed := ⟨fun h => (by cases h), fun h => (by cases h)⟩ }
    exact obeys_write hrunning (h.some hrunning.texts) h.none

theorem obeys_queued {taskId : Option Text} {generatedAt requestedAt : Option Datetime}
    (h : GoesOn limit hlimit next) :
    (markDemoPreviewQueued S video taskId generatedAt requestedAt next).Obeys
      (codec limit hlimit) := by
  refine obeys_resolve fun result hresult => ?_
  cases result with
  | none => exact h.none
  | some current =>
    refine obeys_orNow fun requestedAt => ?_
    have hqueued : IsSound
        { status := .queued
          requestedAt := some requestedAt
          startedAt := none
          generatedAt := generatedAt.or current.generatedAt
          taskId := orTask taskId current.taskId } :=
      { texts := ⟨isText_orTask (hresult current rfl).1, fun _ h => (by cases h)⟩
        status := fun h => (by cases h)
        queued := fun _ => ⟨rfl, rfl⟩
        running := fun h => (by cases h)
        completed := fun h => (by cases h)
        failed := ⟨fun h => (by cases h), fun h => (by cases h)⟩ }
    exact obeys_write hqueued (h.some hqueued.texts) h.none

theorem obeys_failed {taskId : Option Text} {errorMessage : Text} (h : GoesOn limit hlimit next) :
    (markDemoPreviewFailed S video taskId errorMessage next).Obeys (codec limit hlimit) := by
  refine obeys_resolve fun result hresult => ?_
  cases result with
  | none => exact h.none
  | some current =>
    have htask : ∀ text ∈ orTask taskId current.taskId, JsonText.IsText text :=
      isText_orTask (hresult current rfl).1
    have hfailed := isSound_failed current.requestedAt current.startedAt current.generatedAt htask
      (isText_normalizedErrorMessage errorMessage.2)
    exact obeys_write hfailed (h.some hfailed.texts) h.none

theorem obeys_completed {taskId : Option Text} {generatedAt : Datetime}
    (h : GoesOn limit hlimit next) :
    (markDemoPreviewCompleted S video taskId generatedAt next).Obeys (codec limit hlimit) := by
  refine obeys_resolve fun result hresult => ?_
  cases result with
  | none => exact h.none
  | some current =>
    refine obeys_orNow fun startedAt => ?_
    have htask : ∀ text ∈ orTask taskId current.taskId, JsonText.IsText text :=
      isText_orTask (hresult current rfl).1
    have hcompleted := isSound_completed current.requestedAt (some startedAt) generatedAt htask
    exact obeys_write hcompleted (h.some hcompleted.texts) h.none

theorem obeys_sweepAll {next : Action} (temps : List ℕ) (h : next.Obeys (codec limit hlimit)) :
    (sweepAll temps next).Obeys (codec limit hlimit) := by
  induction temps with
  | nil => exact h
  | cons n temps ih => exact ih

theorem obeys_cleanup (h : GoesOn limit hlimit next) :
    (cleanupExpiredDemoPreview S video next).Obeys (codec limit hlimit) := by
  have hremove (found : Surroundings) : Program.Obeys (codec limit hlimit)
      (if found.expired then
        sweepAll found.before (.unlink video (sweepAll found.after (next none)))
      else next none) := by
    split
    · exact obeys_sweepAll _ (obeys_sweepAll found.after h.none)
    · exact h.none
  refine ⟨hremove, fun state hs => ?_⟩
  show Program.Obeys _ (if state.status.isActive then _ else _)
  split
  · intro clock
    dsimp only
    split
    · exact hremove
    · exact h.some hs.texts
  · exact hremove

theorem obeys_caller (caller : Caller) : (caller.action S).Obeys (codec limit hlimit) := by
  induction caller with
  | ended => trivial
  | call c next ih =>
    have hnext : GoesOn limit hlimit fun result => (next result).action S :=
      fun result _ => ih result
    cases c with
    | resolve video => exact obeys_resolve hnext
    | running video taskId => exact obeys_running hnext
    | queued video taskId generatedAt requestedAt => exact obeys_queued hnext
    | failed video taskId errorMessage => exact obeys_failed hnext
    | completed video taskId generatedAt => exact obeys_completed hnext
    | cleanup video => exact obeys_cleanup hnext

end Obeys

/-! ### Runs -/

/-- The processes and the files. -/
abbrev FileState :=
  Conf ℕ (RenamedFiles.Proc VideoId DemoPreviewState ℕ Reading Surroundings)
    (RenamedFiles.Files ℕ VideoId ℕ)

/-- The same processes, and registers. -/
abbrev RegisterState := Conf ℕ Action (VideoId → Option DemoPreviewState)

/-- The callers begin, and there are these files. -/
def fileStart (S : Settings) (callers : ℕ → Caller) (w : RenamedFiles.Files ℕ VideoId ℕ) :
    FileState :=
  ⟨fun i => .ready ((callers i).action S), w⟩

def registerStart (S : Settings) (callers : ℕ → Caller) : RegisterState :=
  ⟨fun i => (callers i).action S, fun _ => none⟩

section Runs

variable {S : Settings} {limit : ℕ} {hlimit : 0 < limit} {callers : ℕ → Caller}
  {w : RenamedFiles.Files ℕ VideoId ℕ} {x : FileState}

theorem simulates_fileStart (S : Settings) (hlimit : 0 < limit) (callers : ℕ → Caller)
    (hw : ∀ video, w.file video = none) :
    RenamedFiles.Simulates (codec limit hlimit) (fileStart S callers w) (registerStart S callers) :=
  RenamedFiles.simulates_start (fun i => obeys_caller (callers i)) hw

/-- **The state files are registers**: any processes that resolve, mark and clean up the states of
demo previews, call by call, do what they do over registers. -/
theorem exists_registers_of_reach (hw : ∀ video, w.file video = none)
    (h : (RenamedFiles.files (codec limit hlimit)).Reach (· = fileStart S callers w)
      Machine.Always x) :
    ∃ y, (RenamedFiles.registers (codec limit hlimit)).Reach (· = registerStart S callers)
        Machine.Always y ∧
      RenamedFiles.Simulates (codec limit hlimit) x y :=
  RenamedFiles.exists_reach_registers (simulates_fileStart S hlimit callers hw) h

/-- **A state file holds a sound state**, at any moment, and is read as that state. -/
theorem isSound_of_reach (hw : ∀ video, w.file video = none)
    (h : (RenamedFiles.files (codec limit hlimit)).Reach (· = fileStart S callers w)
      Machine.Always x)
    (video : VideoId) (n : ℕ) (hn : x.world.file video = some n) :
    ∃ state, IsSound state ∧ x.world.contents n = stateText state ∧
      readDemoPreviewState limit (x.world.contents n) = .ok (some state) := by
  obtain ⟨y, -, hsim⟩ :=
    RenamedFiles.exists_reach_registers (simulates_fileStart S hlimit callers hw) h
  obtain ⟨-, -, state, hstate, hdata⟩ := hsim.holds.file video n hn
  have hsound : IsSound state := hsim.valid video state hstate
  refine ⟨state, hsound, hdata, ?_⟩
  rw [hdata]
  exact readDemoPreviewState_stateText hsound.texts hlimit

end Runs

/-- A preview is asked for by two processes. -/
def twoRequests (i : ℕ) : Caller :=
  if i < 2 then .call (.queued 1 none none none) fun _ => .ended else .ended

def noFiles : RenamedFiles.Files ℕ VideoId ℕ :=
  ⟨fun _ => none, fun _ => false, fun _ => [], fun _ => none, 0⟩

/-- Nothing is there. -/
def around : Surroundings := ⟨⟨⟨2026, 5, 15, 12, 0, 0, 0⟩, by decide⟩, none, false, [], []⟩

/-- The calls of the requests in turn, up to the renaming of their files. -/
def requestTurns : List (ℕ × RenamedFiles.Answer Surroundings) :=
  [.told around, .ok 0, .told around, .ok 0, .ok 1000, .ok 0, .ok 0].flatMap
    fun answer => [(0, answer), (1, answer)]

/-- The file of the second request has replaced that of the first one. -/
theorem exists_reach_stored :
    ∃ x : FileState, (RenamedFiles.files (codec 1 Nat.one_pos)).Reach
        (· = fileStart .alpha twoRequests noFiles) Machine.Always x ∧
      decide (x.world.file 1 = some 1 ∧ x.world.contents 0 ≠ []) = true := by
  refine Machine.exists_reach_of_exec (c := fileStart .alpha twoRequests noFiles) _ Machine.Always
    ?_ requestTurns (fun x => decide (x.world.file 1 = some 1 ∧ x.world.contents 0 ≠ [])) ?_
  · rfl
  · decide +kernel

theorem exists_registers :
    ∃ (x : FileState) (y : RegisterState), x.world.file 1 = some 1 ∧ x.world.contents 0 ≠ [] ∧
      RenamedFiles.Simulates (codec 1 Nat.one_pos) x y := by
  obtain ⟨x, hx, hstored⟩ := exists_reach_stored
  obtain ⟨hfile, hfirst⟩ := of_decide_eq_true hstored
  obtain ⟨y, -, hsim⟩ := exists_registers_of_reach (fun _ => rfl) hx
  exact ⟨x, y, hfile, hfirst, hsim⟩

theorem exists_isSound :
    ∃ contents state, IsSound state ∧ contents = stateText state ∧
      readDemoPreviewState 1 contents = .ok (some state) := by
  obtain ⟨x, hx, hstored⟩ := exists_reach_stored
  obtain ⟨state, hsound, htext, hread⟩ :=
    isSound_of_reach (fun _ => rfl) hx 1 1 (of_decide_eq_true hstored).1
  exact ⟨_, state, hsound, htext, hread⟩

end NextBallUp.Preview.StateFile
