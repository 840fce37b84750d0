import NextBallUp.Events.Review
import NextBallUp.Exports.Formats
import NextBallUp.Lib.JsonReads

/-!
# What is exported can be read back

The files of an export hold the events that were asked for, in their order, and nothing is lost in
writing them: whoever reads a file has the numbers and texts of the listing. The times in seconds
are binary fractions, which the files write in decimals. They are exact all the same.

## Main definitions

* `exportVideoEvents`: the route
* `Shows`: a record that is read holds an event
* `ShowsCsv`, `IsManifest`, `IsFeedback`, `ShowsSportscode`: a file holds the events
* `IsPackage`: all files of a package do

## Main results

* `showsCsv_render`, `isManifest_render`, `isFeedback_render`, `showsSportscode_render`: **each file
  is read back**
* `exported_tables_readBack`, `exported_timeline_readsBack`, `exported_package_readsBack`: **what
  the route returns is read back**

## What is deliberately absent

The session and the audit log. Times of more than 8,900 years, for which the decimals are not exact.
-/

namespace NextBallUp.Exports

open Events (VideoEvent VideoEventSourceValue ReviewStatus ApiError windowFromEvent
  deriveEventSource)
open JsonText (Writable WritableItems WritableFields loads)

variable {T : DigitTable} {limit : ℕ} {video : StoredVideo} {event : StoredEvent}
  {events rows : List StoredEvent} {reviewStatus : ReviewStatus} {generatedAt : Datetime}
  {consent : Option StoredConsent}

/-! ### The route -/

inductive ExportFormat
  | csv | json | sportscodeXml | packageZip
  deriving DecidableEq

/-- The body of a response. -/
inductive Content
  | text (body : List ℕ)
  | archive (members : List (String × List ℕ))

/-- The events that are exported, in the order of the query. -/
def exported (events : List StoredEvent) (video : StoredVideo) (reviewStatus : ReviewStatus) :
    List StoredEvent :=
  Keyset.orderBy (fun event => Consents.windowKey event.row)
    (events.filter fun event =>
      event.row.videoId = video.row.id && event.row.reviewStatus = reviewStatus)

/-- `_latest_active_training_consent` -/
def latestActiveTrainingConsent (consents : List StoredConsent) (teamId : TeamId) (now : Time) :
    Option StoredConsent :=
  (Keyset.orderBy (fun consent => Consents.orderKey consent.row)
    (consents.filter fun consent => Consents.isActive teamId now consent.row)).head?

/-- It is the consent that the model of the feedback takes. -/
theorem row_latestActiveTrainingConsent (consents : List StoredConsent) (teamId : TeamId)
    (now : Time) : (latestActiveTrainingConsent consents teamId now).map StoredConsent.row =
      Consents.latestActiveTrainingConsent (consents.map StoredConsent.row) teamId now := by
  rw [Consents.latestActiveTrainingConsent, Consents.latest, List.filter_map, ← Keyset.map_orderBy,
    List.head?_map]
  rfl

/-- The body that `export_video_events` returns. -/
def exportContent (events : List StoredEvent) (consents : List StoredConsent) (video : StoredVideo)
    (exportFormat : ExportFormat) (reviewStatus : ReviewStatus) (generatedAt : Datetime)
    (now : Time) : Content :=
  let rows := (exported events video reviewStatus).map fun event => safeEventExportRow event video
  match exportFormat with
  | .csv => .text (renderEventCsv rows)
  | .json => .text (renderEventManifest video reviewStatus generatedAt rows)
  | .sportscodeXml => .text (renderSportscodeXml rows)
  | .packageZip =>
    let consent := latestActiveTrainingConsent consents video.row.teamId now
    .archive (renderEventPackage video reviewStatus generatedAt rows consent)

/-- `export_video_events`; `found` is what `_load_video` finds. -/
def exportVideoEvents (events : List StoredEvent) (consents : List StoredConsent)
    (user : Events.Caller) (found : Option StoredVideo) (exportFormat : ExportFormat)
    (reviewStatus : ReviewStatus) (generatedAt : Datetime) (now : Time) : Except ApiError Content :=
  if user.passesVerification then
    match found with
    | none => .error (.notFound "Video not found")
    | some video =>
      if user.isCoach video.row.teamId then
        .ok (exportContent events consents video exportFormat reviewStatus generatedAt now)
      else .error .authorizationDenied
  else .error .accountNotVerified

/-- What a call that returns may do, and what it returns. -/
theorem exportVideoEvents_ok {consents : List StoredConsent} {user : Events.Caller}
    {exportFormat : ExportFormat} {now : Time} {content : Content}
    (h : exportVideoEvents events consents user (some video) exportFormat reviewStatus generatedAt
      now = .ok content) :
    (user.passesVerification = true ∧ user.isCoach video.row.teamId = true) ∧
      content = exportContent events consents video exportFormat reviewStatus generatedAt now := by
  rw [exportVideoEvents] at h
  split_ifs at h with hverified hcoach
  exact ⟨⟨hverified, hcoach⟩, (Except.ok.inj h).symm⟩

/-! ### Records -/

/-- The times of the event are positive, and so small that milliseconds are exact in decimals. -/
structure IsTimely (video : StoredVideo) (event : StoredEvent) : Prop where
  start : 0 ≤ (windowFromEvent event.row video.row).1 ∧
    (windowFromEvent event.row video.row).1 ≤ 2 ^ 48
  stop : 0 ≤ (windowFromEvent event.row video.row).2 ∧
    (windowFromEvent event.row video.row).2 ≤ 2 ^ 48
  event : 0 ≤ event.row.eventTimeMs ∧ event.row.eventTimeMs ≤ 2 ^ 48

/-- A record that is read holds the event. -/
structure Shows (T : DigitTable) (video : StoredVideo) (event : StoredEvent)
    (field : String → Option (List ℕ)) : Prop where
  videoId : (field "video_id").bind (Uuid.ofText T) = some video.uuid
  eventId : (field "event_id").bind (Uuid.ofText T) = some event.uuid
  label : field "label" = some (Events.exportLabel event.row.eventType).codePoints
  eventType : field "event_type" = some event.row.eventType.value.codePoints
  reviewStatus : field "review_status" = some event.row.reviewStatus.value.codePoints
  source : field "source" = some (sourceText (deriveEventSource event.row)).codePoints
  startSeconds : (field "clip_start_seconds").bind readDecimal =
    some ((windowFromEvent event.row video.row).1 / 1000 : ℚ)
  endSeconds : (field "clip_end_seconds").bind readDecimal =
    some ((windowFromEvent event.row video.row).2 / 1000 : ℚ)
  eventSeconds : (field "event_seconds").bind readDecimal = some (event.row.eventTimeMs / 1000 : ℚ)
  startMs : (field "clip_start_time_ms").bind T.readInt =
    some (windowFromEvent event.row video.row).1
  endMs : (field "clip_end_time_ms").bind T.readInt = some (windowFromEvent event.row video.row).2
  eventMs : (field "event_time_ms").bind T.readInt = some event.row.eventTimeMs
  createdAt : (field "created_at").bind fromisoformat = some (event.createdAt.toFields, some 0)
  notes : field "notes" = some eventExportNotes.codePoints

theorem length_decimal_time {n : ℤ} (h : 0 ≤ n ∧ n ≤ 2 ^ 48) :
    (decimal n.natAbs).length ≤ 4300 := by
  have hlt : n.natAbs < 10 ^ 15 := by omega
  exact ((length_decimal_le_iff (by decide)).mpr hlt).trans (by decide)

/-- The double of the seconds that the model of the listing has: to round it changes nothing. -/
theorem seconds_eq {n : ℤ} (h : 0 ≤ n ∧ n ≤ 2 ^ 48) : seconds n = .ofRat (Events.seconds n) := by
  rw [Events.seconds_eq]
  obtain ⟨k, rfl⟩ := Int.eq_ofNat_of_zero_le h.1
  have hk : k ≤ 2 ^ 52 := by omega
  exact Double.roundTo_thousandths hk

theorem seconds_eq_thousandths {k : ℕ} (h : k ≤ 2 ^ 48) :
    seconds k = .ofRat ((k : ℚ) / 1000) := by
  rw [seconds_eq ⟨by omega, by omega⟩, Events.seconds_eq]
  rfl

theorem text_seconds {k : ℕ} (h : k ≤ 2 ^ 48) :
    (Value.float (seconds k)).text = Double.thousandthsText k := by
  show (seconds k).repr = _
  rw [seconds_eq_thousandths h, Double.repr_thousandths h]

/-- Seconds are read exactly, though the number that is written is rounded. -/
theorem readDecimal_seconds {n : ℤ} (h : 0 ≤ n ∧ n ≤ 2 ^ 48) :
    readDecimal (Value.float (seconds n)).text = some (n / 1000 : ℚ) := by
  obtain ⟨k, rfl⟩ := Int.eq_ofNat_of_zero_le h.1
  have hk : k ≤ 2 ^ 48 := by omega
  exact (congrArg readDecimal (text_seconds hk)).trans (readDecimal_thousandthsText k)

/-- A record whose fields are the texts of the export holds the event. -/
theorem shows_of_text {field : String → Option (List ℕ)} (htimely : IsTimely video event)
    (h : ∀ f ∈ safeEventExportRow event video, field f.1 = some f.2.text) :
    Shows T video event field := by
  simp only [safeEventExportRow, List.forall_mem_cons, Value.text] at h
  obtain ⟨hvideo, hevent, hlabel, htype, hstatus, hsource, hstart, hend, htime, hstartMs, hendMs,
    htimeMs, hcreated, hnotes, -⟩ := h
  refine ⟨?_, ?_, hlabel, htype, hstatus, hsource, ?_, ?_, ?_, ?_, ?_, ?_, ?_, hnotes⟩
  · rw [hvideo, Option.bind_some]
    exact Uuid.ofText_str T video.uuid
  · rw [hevent, Option.bind_some]
    exact Uuid.ofText_str T event.uuid
  · rw [hstart, Option.bind_some]
    exact readDecimal_seconds htimely.start
  · rw [hend, Option.bind_some]
    exact readDecimal_seconds htimely.stop
  · rw [htime, Option.bind_some]
    exact readDecimal_seconds htimely.event
  · rw [hstartMs, Option.bind_some]
    exact T.readInt_decimalInt (length_decimal_time htimely.start)
  · rw [hendMs, Option.bind_some]
    exact T.readInt_decimalInt (length_decimal_time htimely.stop)
  · rw [htimeMs, Option.bind_some]
    exact T.readInt_decimalInt (length_decimal_time htimely.event)
  · rw [hcreated, Option.bind_some]
    exact fromisoformat_isoformat event.createdAt

theorem keys_safeEventExportRow (event : StoredEvent) (video : StoredVideo) :
    (safeEventExportRow event video).map Prod.fst = eventExportFields := rfl

/-- The value under a key. -/
theorem lookup_of_mem {row : Row} (hnodup : (row.map Prod.fst).Nodup) {f : String × Value}
    (h : f ∈ row) : row.lookup f.1 = some f.2 := by
  induction row with
  | nil => exact (List.not_mem_nil h).elim
  | cons first row ih =>
    obtain ⟨hfirst, hnodup⟩ := List.nodup_cons.mp hnodup
    rcases List.mem_cons.mp h with rfl | h
    · exact List.lookup_cons_self
    · have hne : (f.1 == first.1) = false :=
        beq_eq_false_iff_ne.mpr fun he => hfirst (he ▸ List.mem_map_of_mem h)
      rw [List.lookup_cons, hne]
      exact ih hnodup h

theorem at_of_mem {f : String × Value} (h : f ∈ safeEventExportRow event video) :
    (safeEventExportRow event video).at f.1 = f.2 := by
  have hnodup : ((safeEventExportRow event video).map Prod.fst).Nodup := by
    rw [keys_safeEventExportRow]
    decide
  rw [Row.at, lookup_of_mem hnodup h]
  rfl

/-! ### CSV -/

/-- A column of a record, as `csv.DictReader` finds it. -/
def column (header record : List (List ℕ)) (name : String) : Option (List ℕ) :=
  (header.zip record).lookup name.codePoints

/-- A CSV file holds the events, in their order. -/
def ShowsCsv (T : DigitTable) (video : StoredVideo) (events : List StoredEvent) (text : List ℕ) :
    Prop :=
  ∃ header records, Csv.read text = some (header :: records) ∧
    List.Forall₂ (fun event record => Shows T video event (column header record)) events records

/-- The fields of a record stand under their names. -/
theorem column_map (f : String → List ℕ) {names : List String} {name : String} (h : name ∈ names) :
    column (names.map String.codePoints) (names.map f) name = some (f name) := by
  show ((names.map String.codePoints).zip (names.map f)).lookup name.codePoints = _
  induction names with
  | nil => exact (List.not_mem_nil h).elim
  | cons first names ih =>
    show (match name.codePoints == first.codePoints with
      | true => some (f first)
      | false => ((names.map String.codePoints).zip (names.map f)).lookup name.codePoints) = _
    by_cases hfirst : name = first
    · rw [hfirst, beq_self_eq_true]
    · have hne : (name.codePoints == first.codePoints) = false :=
        beq_eq_false_iff_ne.mpr fun he => hfirst (String.codePoints_inj.mp he)
      rw [hne]
      exact ih ((List.mem_cons.mp h).resolve_left hfirst)

/-- **The CSV file is read back.** -/
theorem showsCsv_render (h : ∀ event ∈ events, IsTimely video event) :
    ShowsCsv T video events
      (renderEventCsv (events.map fun event => safeEventExportRow event video)) := by
  have hread : Csv.read (renderEventCsv (events.map fun event => safeEventExportRow event video)) =
      some (eventExportFields.map String.codePoints ::
        (events.map fun event => safeEventExportRow event video).map
          fun row => eventExportFields.map fun field => (row.at field).text) := by
    refine Csv.read_write fun fields hfields => ?_
    rcases List.mem_cons.mp hfields with rfl | hfields
    · exact List.cons_ne_nil _ _
    · obtain ⟨row, -, rfl⟩ := List.mem_map.mp hfields
      exact List.cons_ne_nil _ _
  refine ⟨_, _, hread, ?_⟩
  rw [List.map_map, List.forall₂_map_right_iff]
  refine List.forall₂_same.mpr fun event hevent => shows_of_text (h event hevent) fun f hf => ?_
  have hmem : f.1 ∈ eventExportFields := by
    rw [← keys_safeEventExportRow event video]
    exact List.mem_map_of_mem hf
  refine (column_map (fun field => ((safeEventExportRow event video).at field).text) hmem).trans ?_
  rw [at_of_mem hf]

/-! ### JSON -/

/-- A value as a text; a number as its numeral. -/
def fieldText : Json CodePoint → Option (List ℕ)
  | .str s => some (codes s)
  | .int n => some (decimalInt n)
  | .float numeral => some numeral
  | _ => none

theorem fieldText_mark_json (value : Value) : fieldText value.json.mark = some value.text := by
  cases value with
  | str s => exact congrArg some (JsonText.codes_map_mark s)
  | int n => rfl
  | float x => rfl

theorem fieldText_mark_str (s : List ℕ) : fieldText (Json.str s).mark = some s :=
  congrArg some (JsonText.codes_map_mark s)

theorem get_dict {fields : List (String × Json ℕ)} (hnodup : (fields.map Prod.fst).Nodup)
    {f : String × Json ℕ} (h : f ∈ fields) : (Events.dict fields).get f.1 = f.2 := by
  induction fields with
  | nil => exact (List.not_mem_nil h).elim
  | cons first fields ih =>
    obtain ⟨hfirst, hnodup⟩ := List.nodup_cons.mp hnodup
    rw [show first = (first.1, first.2) from rfl, Events.get_dict_cons]
    rcases List.mem_cons.mp h with rfl | h
    · exact if_pos rfl
    · have hne : first.1 ≠ f.1 := fun he => hfirst (he ▸ List.mem_map_of_mem h)
      rw [if_neg hne]
      exact ih hnodup h

/-- A member is read as it was written. -/
theorem get_mark_dict {fields : List (String × Json ℕ)} (hnodup : (fields.map Prod.fst).Nodup) :
    ∀ f ∈ fields, (dict fields).mark.get f.1 = f.2.mark := by
  intro f hf
  show (Json.markFields (Events.dict fields)).get f.1 = _
  rw [JsonText.get_markFields, get_dict hnodup hf]

theorem writable_dict {room : ℕ} {fields : List (String × Json ℕ)}
    (hnodup : (fields.map Prod.fst).Nodup) (h : ∀ f ∈ fields, Writable room f.2) :
    Writable (room + 1) (dict fields) := by
  have hkeys : (Events.dict fields).map Prod.fst = (fields.map Prod.fst).map String.codePoints := by
    rw [Events.dict, List.map_map, List.map_map]
    rfl
  refine ⟨Nat.succ_pos room, ?_, JsonText.writableFields_iff.mpr fun f hf => ?_⟩
  · rw [hkeys]
    exact hnodup.map fun _ _ => String.codePoints_inj.mp
  · obtain ⟨g, hg, rfl⟩ := List.mem_map.mp hf
    exact ⟨JsonText.isText_codePoints g.1, h g hg⟩

/-- What `json.dumps` writes of an object is read back. -/
theorem exists_loads_dict {room : ℕ} {fields : List (String × Json ℕ)}
    (hnodup : (fields.map Prod.fst).Nodup) (h : ∀ f ∈ fields, Writable room f.2) :
    ∃ value, loads (room + 1) (JsonText.dumpsWith [] (dict fields)) = .ok value ∧
      ∀ f ∈ fields, value.get f.1 = f.2.mark := by
  have hnil : ∀ c ∈ ([] : List ℕ), isSpace c = true :=
    fun c hc => (List.not_mem_nil hc).elim
  have hread := JsonText.loads_dumpsWith hnil hnil (writable_dict hnodup h)
  rw [List.append_nil] at hread
  exact ⟨_, hread, get_mark_dict hnodup⟩

theorem writable_text (room : ℕ) (s : String) : Writable room (Events.text s) :=
  JsonText.isText_codePoints s

theorem writable_uuid (room : ℕ) (u : Uuid) : Writable room (.str u.str) :=
  JsonText.isText_of_plain fun _ => Uuid.isPlain_of_mem_str

theorem writable_isoformat (room : ℕ) (t : Datetime) : Writable room (.str t.isoformat) := by
  intro c hc
  have := lt_of_mem_isoformat hc
  exact .inl (by omega)

theorem isPointNumeral_fixedText {decimals : ℕ} (h : 0 < decimals) (n : ℕ) :
    JsonText.IsPointNumeral (fixedText decimals n) := by
  refine ⟨_, _, rfl, fun hnil => ?_, fun c hc => isDigit_of_mem_paddedDigits hc⟩
  have hlength := length_paddedDigits decimals (n % 10 ^ decimals)
  rw [hnil, List.length_nil] at hlength
  omega

theorem isPointNumeral_thousandthsText (k : ℕ) :
    JsonText.IsPointNumeral (Double.thousandthsText k) := by
  rw [Double.thousandthsText]
  split_ifs
  · exact isPointNumeral_fixedText (by decide) _
  · exact isPointNumeral_fixedText (by decide) _
  · exact isPointNumeral_fixedText (by decide) _

theorem writable_seconds (room : ℕ) {n : ℤ} (h : 0 ≤ n ∧ n ≤ 2 ^ 48) :
    Writable room (Value.float (seconds n)).json := by
  obtain ⟨k, rfl⟩ := Int.eq_ofNat_of_zero_le h.1
  have hk : k ≤ 2 ^ 48 := by omega
  show JsonText.IsPointNumeral (Value.float (seconds k)).text
  rw [text_seconds hk]
  exact isPointNumeral_thousandthsText k

theorem writable_row (room : ℕ) (h : IsTimely video event) :
    ∀ f ∈ safeEventExportRow event video, Writable room f.2.json := by
  simp only [safeEventExportRow, List.forall_mem_cons]
  exact ⟨writable_uuid _ _, writable_uuid _ _, writable_text _ _, writable_text _ _,
    writable_text _ _, writable_text _ _, writable_seconds _ h.start, writable_seconds _ h.stop,
    writable_seconds _ h.event, length_decimal_time h.start, length_decimal_time h.stop,
      length_decimal_time h.event,
    writable_isoformat _ _, writable_text _ _, fun f hf => (List.not_mem_nil hf).elim⟩

/-- What the manifest says of the export, and that it holds the events. -/
structure IsManifest (T : DigitTable) (video : StoredVideo) (reviewStatus : ReviewStatus)
    (generatedAt : Datetime) (events : List StoredEvent) (manifest : Json CodePoint) :
    Prop where
  videoId : (fieldText (manifest.get "video_id")).bind (Uuid.ofText T) = some video.uuid
  reviewStatus : fieldText (manifest.get "review_status") = some reviewStatus.value.codePoints
  generatedAt : (fieldText (manifest.get "generated_at")).bind fromisoformat =
    some (generatedAt.toFields, some 0)
  noVideo : (manifest.get "includes_video_bytes").isFalse = true
  events : ∃ items, (manifest.get "events").asArr = some items ∧ List.Forall₂
    (fun event (item : Json _) => Shows T video event fun name =>
      fieldText (item.get name)) events items

theorem markItems_eq_map (items : List (Json ℕ)) : Json.markItems items = items.map Json.mark := by
  induction items with
  | nil => rfl
  | cons value rest ih => exact congrArg (value.mark :: ·) ih

theorem nodup_keys_row (event : StoredEvent) (video : StoredVideo) :
    ((safeEventExportRow event video).map Prod.fst).Nodup := by
  rw [keys_safeEventExportRow]
  decide

theorem keys_json (row : Row) :
    (row.map fun f => (f.1, f.2.json)).map Prod.fst = row.map Prod.fst := by
  rw [List.map_map]
  rfl

/-- **The manifest is read back.** -/
theorem isManifest_render (hlimit : 3 ≤ limit) (h : ∀ event ∈ events, IsTimely video event) :
    ∃ manifest, loads limit (renderEventManifest video reviewStatus generatedAt
        (events.map fun event => safeEventExportRow event video)) = .ok manifest ∧
      IsManifest T video reviewStatus generatedAt events manifest := by
  obtain ⟨room, rfl⟩ := Nat.exists_eq_add_of_le' hlimit
  have hnodup (rows : List Row) : ((eventManifest video reviewStatus generatedAt rows).map
      Prod.fst).Nodup := by simp [eventManifest]
  have hkeys (event : StoredEvent) : ((safeEventExportRow event video).map
      fun f => (f.1, f.2.json)).map Prod.fst |>.Nodup := by
    rw [keys_json]
    exact nodup_keys_row event video
  have hitem : ∀ item ∈ (events.map fun event => safeEventExportRow event video).map eventItem,
      Writable (room + 1) item := by
    simp only [List.forall_mem_map]
    intro event hevent
    refine writable_dict (hkeys event) fun f hf => ?_
    obtain ⟨g, hg, rfl⟩ := List.mem_map.mp hf
    exact writable_row room (h event hevent) g hg
  have hfields : ∀ f ∈ eventManifest video reviewStatus generatedAt
      (events.map fun event => safeEventExportRow event video), Writable (room + 2) f.2 := by
    simp only [eventManifest, List.forall_mem_cons]
    exact ⟨writable_text _ _, writable_uuid _ _, writable_text _ _, writable_isoformat _ _, trivial,
      trivial, trivial, ⟨Nat.succ_pos _, JsonText.writableItems_iff.mpr hitem⟩,
      fun f hf => (List.not_mem_nil hf).elim⟩
  obtain ⟨manifest, hload, hget⟩ := exists_loads_dict (hnodup _) hfields
  refine ⟨manifest, hload, ?_⟩
  simp only [eventManifest, List.forall_mem_cons] at hget
  obtain ⟨-, hvideo, hstatus, hgenerated, -, -, hbytes, hevents, -⟩ := hget
  constructor
  · rw [hvideo, fieldText_mark_str, Option.bind_some]
    exact Uuid.ofText_str T video.uuid
  · rw [hstatus]
    exact fieldText_mark_str _
  · rw [hgenerated, fieldText_mark_str, Option.bind_some]
    exact fromisoformat_isoformat generatedAt
  · rw [hbytes]
    rfl
  · refine ⟨_, congrArg Json.asArr hevents, ?_⟩
    rw [markItems_eq_map, List.map_map, List.map_map, List.forall₂_map_right_iff]
    refine List.forall₂_same.mpr fun event hevent => shows_of_text (h event hevent) fun f hf => ?_
    have hmember := get_mark_dict (hkeys event) (f.1, f.2.json) (List.mem_map_of_mem hf)
    exact (congrArg fieldText hmember).trans (fieldText_mark_json f.2)

/-! ### The review feedback -/

/-- An event of the review feedback. -/
structure IsExample (T : DigitTable) (video : StoredVideo) (event : StoredEvent)
    (item : Json CodePoint) : Prop where
  eventId : (fieldText (item.get "event_id")).bind (Uuid.ofText T) = some event.uuid
  videoId : (fieldText (item.get "video_id")).bind (Uuid.ofText T) = some video.uuid
  label : fieldText (item.get "label") = some event.row.eventType.value.codePoints
  reviewStatus : fieldText (item.get "review_status") =
    some event.row.reviewStatus.value.codePoints
  accepted : (item.get "accepted").isTrue = decide (event.row.reviewStatus = .approved)
  source : fieldText (item.get "source") =
    some (sourceText (deriveEventSource event.row)).codePoints
  startMs : (item.get "clip_start_time_ms").asStrictInt =
    some (windowFromEvent event.row video.row).1
  endMs : (item.get "clip_end_time_ms").asStrictInt = some (windowFromEvent event.row video.row).2
  eventMs : (item.get "event_time_ms").asStrictInt = some event.row.eventTimeMs

/-- What the feedback says of the consent, and that it holds the events. -/
structure IsFeedback (T : DigitTable) (video : StoredVideo) (reviewStatus : ReviewStatus)
    (generatedAt : Datetime) (events : List StoredEvent) (consent : Option StoredConsent)
    (feedback : Json CodePoint) : Prop where
  videoId : (fieldText (feedback.get "video_id")).bind (Uuid.ofText T) = some video.uuid
  teamId : (fieldText (feedback.get "team_id")).bind (Uuid.ofText T) = some video.teamUuid
  reviewStatus : fieldText (feedback.get "review_status") = some reviewStatus.value.codePoints
  generatedAt : (fieldText (feedback.get "generated_at")).bind fromisoformat =
    some (generatedAt.toFields, some 0)
  allowed : ((feedback.get "governance").get "commercial_training_allowed").isTrue =
    consent.any fun consent => consent.row.allowsTraining
  consentId : (fieldText ((feedback.get "governance").get "commercial_training_consent_id")).bind
    (Uuid.ofText T) =
      (consent.filter fun consent => consent.row.allowsTraining).map StoredConsent.uuid
  examples : ∃ items, (feedback.get "examples").asArr = some items ∧
    List.Forall₂ (IsExample T video) events items

theorem exampleFields_row (event : StoredEvent) (video : StoredVideo) :
    exampleFields (safeEventExportRow event video) =
      [("event_id", .str event.uuid.str),
        ("video_id", .str video.uuid.str),
        ("label", Events.text event.row.eventType.value),
        ("review_status", Events.text event.row.reviewStatus.value),
        ("accepted", .bool (decide (event.row.reviewStatus = .approved))),
        ("source", Events.text (sourceText (deriveEventSource event.row))),
        ("clip_start_time_ms", .int (windowFromEvent event.row video.row).1),
        ("clip_end_time_ms", .int (windowFromEvent event.row video.row).2),
        ("event_time_ms", .int event.row.eventTimeMs)] := by
  obtain ⟨row, hrow⟩ : ∃ row, safeEventExportRow event video = row := ⟨_, rfl⟩
  have hat : ∀ f ∈ safeEventExportRow event video, row.at f.1 = f.2 := by
    intro f hf
    rw [← hrow]
    exact at_of_mem hf
  simp only [safeEventExportRow, List.forall_mem_cons] at hat
  obtain ⟨hvideo, hevent, -, htype, hstatus, hsource, -, -, -, hstart, hend, htime, -⟩ := hat
  have haccepted : (Json.str (Events.safeEventExportRow event.row
      video.row).reviewStatus.value.codePoints).isText ReviewStatus.approved.value =
        decide (event.row.reviewStatus = .approved) := by
    show (Json.str event.row.reviewStatus.value.codePoints).isText _ = _
    cases event.row.reviewStatus <;> rfl
  rw [hrow, exampleFields, hvideo, hevent, htype, hstatus, hsource, hstart, hend, htime]
  simp only [Value.json, haccepted]
  rfl

theorem nodup_keys_example (row : Row) : ((exampleFields row).map Prod.fst).Nodup := by
  simp [exampleFields]

theorem writable_example (room : ℕ) (h : IsTimely video event) :
    Writable (room + 1) (dict (exampleFields (safeEventExportRow event video))) := by
  refine writable_dict (nodup_keys_example _) ?_
  simp only [exampleFields_row, List.forall_mem_cons]
  exact ⟨writable_uuid _ _, writable_uuid _ _, writable_text _ _, writable_text _ _, trivial,
    writable_text _ _, length_decimal_time h.start, length_decimal_time h.stop,
    length_decimal_time h.event, fun f hf => (List.not_mem_nil hf).elim⟩

theorem isExample_mark : IsExample T video event
    (dict (exampleFields (safeEventExportRow event video))).mark := by
  have hget := get_mark_dict (nodup_keys_example (safeEventExportRow event video))
  generalize (dict (exampleFields (safeEventExportRow event video))).mark = item at hget ⊢
  simp only [exampleFields_row, List.forall_mem_cons] at hget
  obtain ⟨hevent, hvideo, hlabel, hstatus, haccepted, hsource, hstart, hend, htime, -⟩ := hget
  constructor
  · rw [hevent, fieldText_mark_str, Option.bind_some]
    exact Uuid.ofText_str T event.uuid
  · rw [hvideo, fieldText_mark_str, Option.bind_some]
    exact Uuid.ofText_str T video.uuid
  · rw [hlabel]
    exact fieldText_mark_str _
  · rw [hstatus]
    exact fieldText_mark_str _
  · rw [haccepted]
    rfl
  · rw [hsource]
    exact fieldText_mark_str _
  · rw [hstart]
    rfl
  · rw [hend]
    rfl
  · rw [htime]
    rfl

theorem nodup_keys_governance (consent : Option StoredConsent) :
    ((governanceFields consent).map Prod.fst).Nodup := by
  simp [governanceFields]

/-- The consent that the feedback names, as a value. -/
def consentIdValue (consent : Option StoredConsent) : Json ℕ :=
  ((consent.filter fun consent => consent.row.allowsTraining).map
    fun consent => Json.str consent.uuid.str).getD .null

theorem governanceFields_eq (consent : Option StoredConsent) : governanceFields consent =
    [("review_only", .bool true),
      ("not_production_analytics", .bool true),
      ("includes_video_bytes", .bool false),
      ("includes_signed_urls", .bool false),
      ("commercial_training_allowed",
        .bool (consent.any fun consent => consent.row.allowsTraining)),
      ("commercial_training_consent_id", consentIdValue consent),
      ("global_model_training_requires_operator_rights_review", .bool true)] := by
  cases consent with
  | none => rfl
  | some consent =>
    have hid : (if consent.row.allowsTraining = true then Json.str consent.uuid.str else .null) =
        consentIdValue (some consent) := by
      cases hallowed : consent.row.allowsTraining <;> simp [consentIdValue, Option.filter, hallowed]
    rw [← hid]
    rfl

/-- **The review feedback is read back.** -/
theorem isFeedback_render (hlimit : 3 ≤ limit) (h : ∀ event ∈ events, IsTimely video event) :
    ∃ feedback, loads limit (renderReviewFeedbackManifest video reviewStatus generatedAt
        (events.map fun event => safeEventExportRow event video) consent) = .ok feedback ∧
      IsFeedback T video reviewStatus generatedAt events consent feedback := by
  obtain ⟨room, rfl⟩ := Nat.exists_eq_add_of_le' hlimit
  have hnodup (rows : List Row) : ((reviewFeedbackManifest video reviewStatus generatedAt rows
      consent).map Prod.fst).Nodup := by simp [reviewFeedbackManifest]
  have hid : Writable (room + 1) (consentIdValue consent) := by
    rw [consentIdValue]
    cases consent.filter fun consent => consent.row.allowsTraining with
    | none => trivial
    | some consent => exact writable_uuid _ _
  have hgovernance : Writable (room + 2) (dict (governanceFields consent)) := by
    refine writable_dict (nodup_keys_governance consent) ?_
    simp only [governanceFields_eq, List.forall_mem_cons]
    exact ⟨trivial, trivial, trivial, trivial, trivial, hid, trivial,
      fun f hf => (List.not_mem_nil hf).elim⟩
  have hitem : ∀ item ∈ (events.map fun event => safeEventExportRow event video).map
      fun row => dict (exampleFields row), Writable (room + 1) item := by
    simp only [List.forall_mem_map]
    exact fun event hevent => writable_example room (h event hevent)
  have hfields : ∀ f ∈ reviewFeedbackManifest video reviewStatus generatedAt
      (events.map fun event => safeEventExportRow event video) consent,
        Writable (room + 2) f.2 := by
    simp only [reviewFeedbackManifest, List.forall_mem_cons]
    exact ⟨writable_text _ _, writable_uuid _ _, writable_uuid _ _, writable_text _ _,
      writable_isoformat _ _, hgovernance, ⟨Nat.succ_pos _, JsonText.writableItems_iff.mpr hitem⟩,
      fun f hf => (List.not_mem_nil hf).elim⟩
  obtain ⟨feedback, hload, hget⟩ := exists_loads_dict (hnodup _) hfields
  refine ⟨feedback, hload, ?_⟩
  have hconsent := get_mark_dict (nodup_keys_governance consent)
  simp only [reviewFeedbackManifest, List.forall_mem_cons] at hget
  obtain ⟨-, hvideo, hteam, hstatus, hgenerated, hgoverned, hexamples, -⟩ := hget
  rw [← hgoverned] at hconsent
  simp only [governanceFields_eq, List.forall_mem_cons] at hconsent
  obtain ⟨-, -, -, -, hallowed, hconsentId, -⟩ := hconsent
  constructor
  · rw [hvideo, fieldText_mark_str, Option.bind_some]
    exact Uuid.ofText_str T video.uuid
  · rw [hteam, fieldText_mark_str, Option.bind_some]
    exact Uuid.ofText_str T video.teamUuid
  · rw [hstatus]
    exact fieldText_mark_str _
  · rw [hgenerated, fieldText_mark_str, Option.bind_some]
    exact fromisoformat_isoformat generatedAt
  · rw [hallowed]
    rfl
  · rw [hconsentId, consentIdValue]
    cases consent.filter fun consent => consent.row.allowsTraining with
    | none => rfl
    | some consent =>
      rw [Option.map_some, Option.getD_some, fieldText_mark_str, Option.bind_some, Option.map_some]
      exact Uuid.ofText_str T consent.uuid
  · refine ⟨_, congrArg Json.asArr hexamples, ?_⟩
    rw [markItems_eq_map, List.map_map, List.map_map, List.forall₂_map_right_iff]
    exact List.forall₂_same.mpr fun event _ => isExample_mark

/-! ### XML for SportsCode -/

/-- An instance of the timeline is the event at this place. -/
structure IsInstance (video : StoredVideo) (event : StoredEvent) (index : ℕ)
    (element : Xml.Element) : Prop where
  id : element.findtext "ID" = some (decimal index)
  start : (element.findtext "start").bind readDecimal =
    some ((windowFromEvent event.row video.row).1 / 1000 : ℚ)
  stop : (element.findtext "end").bind readDecimal =
    some ((windowFromEvent event.row video.row).2 / 1000 : ℚ)
  code : element.findtext "code" = some (Events.exportLabel event.row.eventType).codePoints
  labels : (element.findall "label").map
    (fun label => (label.findtext "group", label.findtext "text")) =
    [(some "NextBallUp review".codePoints, some event.row.reviewStatus.value.codePoints),
      (some "NextBallUp source".codePoints,
        some (sourceText (deriveEventSource event.row)).codePoints)]

/-- An XML file holds the events, in their order. -/
def ShowsSportscode (video : StoredVideo) (events : List StoredEvent) (text : List ℕ) : Prop :=
  ∃ root timeline, Xml.read text = some root ∧ root.tag = "file".codePoints ∧
    root.findall "ALL_INSTANCES" = [timeline] ∧
    List.Forall₂ (fun r element => IsInstance video r.1 r.2 element) (events.zipIdx 1)
      (timeline.findall "instance")

theorem findall_branch (tag name : String) (children : List Xml.Element) :
    (branch tag children).findall name =
      children.filter fun child => child.tag = name.codePoints := by
  show ((children.map fun child => ([], child)).map Prod.snd).filter _ = _
  rw [List.map_map,
    show Prod.snd ∘ (fun child : Xml.Element => (([] : List ℕ), child)) = id from rfl, List.map_id]

@[simp] theorem tag_branch (tag : String) (children : List Xml.Element) :
    (branch tag children).tag = tag.codePoints := rfl

@[simp] theorem tag_leaf (tag : String) (text : List ℕ) : (leaf tag text).tag = tag.codePoints :=
  rfl

@[simp] theorem text_leaf (tag : String) (text : List ℕ) : (leaf tag text).text = text := rfl

@[simp] theorem indent_leaf (level : ℕ) (tag : String) (text : List ℕ) :
    (leaf tag text).indent level = leaf tag text := rfl

/-- What `_render_sportscode_xml` takes from a row. -/
theorem instanceElement_row (event : StoredEvent) (video : StoredVideo) (index : ℕ) :
    instanceElement (safeEventExportRow event video) index =
      branch "instance"
        [leaf "ID" (decimal index),
          leaf "start" ((seconds (windowFromEvent event.row video.row).1).toFixed 3),
          leaf "end" ((seconds (windowFromEvent event.row video.row).2).toFixed 3),
          leaf "code" (Events.exportLabel event.row.eventType).codePoints,
          labelElement "NextBallUp review" event.row.reviewStatus.value.codePoints,
          labelElement "NextBallUp source"
            (sourceText (deriveEventSource event.row)).codePoints] := by
  obtain ⟨row, hrow⟩ : ∃ row, safeEventExportRow event video = row := ⟨_, rfl⟩
  have hat : ∀ f ∈ safeEventExportRow event video, row.at f.1 = f.2 := by
    intro f hf
    rw [← hrow]
    exact at_of_mem hf
  simp only [safeEventExportRow, List.forall_mem_cons] at hat
  obtain ⟨-, -, hlabel, -, hstatus, hsource, hstart, hend, -⟩ := hat
  rw [hrow, instanceElement, hlabel, hstatus, hsource, hstart, hend]
  rfl

theorem readDecimal_toFixed {n : ℤ} (h : 0 ≤ n ∧ n ≤ 2 ^ 48) :
    readDecimal ((seconds n).toFixed 3) = some (n / 1000 : ℚ) := by
  obtain ⟨k, rfl⟩ := Int.eq_ofNat_of_zero_le h.1
  have hk : k ≤ 2 ^ 52 := by omega
  have hfixed : (seconds k).toFixed 3 = fixedText 3 k :=
    (congrArg (Double.toFixed 3) (seconds_eq_thousandths (by omega))).trans
      (Double.toFixed_thousandths hk)
  refine (congrArg readDecimal hfixed).trans ((readDecimal_fixedText 3 k).trans ?_)
  norm_num

/-- An instance keeps its texts where it is indented. -/
theorem isInstance_indent {index : ℕ} (level : ℕ) (h : IsTimely video event) :
    IsInstance video event index
      ((instanceElement (safeEventExportRow event video) index).indent level) := by
  rw [instanceElement_row]
  constructor
  all_goals
    simp [Xml.Element.findtext, Xml.Element.findall_indent, findall_branch, labelElement,
      String.codePoints_inj, readDecimal_toFixed h.start, readDecimal_toFixed h.stop]

theorem isWellFormed_leaf {tag : String} {text : List ℕ} (htag : Xml.IsName tag.codePoints)
    (htext : Xml.IsText text) : (leaf tag text).IsWellFormed :=
  ⟨htag, trivial, htext⟩

theorem isWellFormed_branch {tag : String} {children : List Xml.Element}
    (htag : Xml.IsName tag.codePoints) (h : ∀ child ∈ children, child.IsWellFormed) :
    (branch tag children).IsWellFormed := by
  refine ⟨htag, ?_, fun c hc => (List.not_mem_nil hc).elim⟩
  induction children with
  | nil => trivial
  | cons child rest ih =>
    exact ⟨fun c hc => (List.not_mem_nil hc).elim, h child List.mem_cons_self,
      ih fun e he => h e (List.mem_cons_of_mem _ he)⟩

theorem isText_decimal (n : ℕ) : Xml.IsText (decimal n) := by
  intro c hc
  have := digit_of_mem_decimal hc
  simp only [Xml.isChar, Bool.or_eq_true, Bool.and_eq_true, decide_eq_true_eq]
  omega

theorem isText_fixedText (decimals n : ℕ) : Xml.IsText (fixedText decimals n) := by
  intro c hc
  rcases List.mem_append.mp hc with hc | hc
  · exact isText_decimal _ c hc
  · rcases List.mem_cons.mp hc with rfl | hc
    · rfl
    · have hdigit := isDigit_of_mem_paddedDigits hc
      simp only [isDigit, Bool.and_eq_true, decide_eq_true_eq] at hdigit
      simp only [Xml.isChar, Bool.or_eq_true, Bool.and_eq_true, decide_eq_true_eq]
      omega

theorem isText_toFixed {n : ℤ} (h : 0 ≤ n ∧ n ≤ 2 ^ 48) :
    Xml.IsText ((seconds n).toFixed 3) := by
  obtain ⟨k, rfl⟩ := Int.eq_ofNat_of_zero_le h.1
  have hk : k ≤ 2 ^ 52 := by omega
  have hfixed : (seconds k).toFixed 3 = fixedText 3 k :=
    (congrArg (Double.toFixed 3) (seconds_eq_thousandths (by omega))).trans
      (Double.toFixed_thousandths hk)
  exact hfixed ▸ isText_fixedText 3 k

theorem isWellFormed_labelElement {group : String} {text : List ℕ}
    (hgroup : Xml.IsText group.codePoints) (htext : Xml.IsText text) :
    (labelElement group text).IsWellFormed := by
  refine isWellFormed_branch (by decide) ?_
  simp only [List.forall_mem_cons]
  exact ⟨isWellFormed_leaf (by decide) hgroup, isWellFormed_leaf (by decide) htext,
    fun e he => (List.not_mem_nil he).elim⟩

theorem isWellFormed_instanceElement (index : ℕ) (h : IsTimely video event) :
    (instanceElement (safeEventExportRow event video) index).IsWellFormed := by
  have hlabel : Xml.IsText (Events.exportLabel event.row.eventType).codePoints := by
    cases event.row.eventType <;> decide
  have hstatus : Xml.IsText event.row.reviewStatus.value.codePoints := by
    cases event.row.reviewStatus <;> decide
  have hsource : Xml.IsText (sourceText (deriveEventSource event.row)).codePoints := by
    cases deriveEventSource event.row <;> decide
  rw [instanceElement_row]
  refine isWellFormed_branch (by decide) ?_
  simp only [List.forall_mem_cons]
  exact ⟨isWellFormed_leaf (by decide) (isText_decimal index),
    isWellFormed_leaf (by decide) (isText_toFixed h.start),
    isWellFormed_leaf (by decide) (isText_toFixed h.stop),
    isWellFormed_leaf (by decide) hlabel, isWellFormed_labelElement (by decide) hstatus,
    isWellFormed_labelElement (by decide) hsource, fun e he => (List.not_mem_nil he).elim⟩

/-- The element of all instances. -/
def timeline (events : List StoredEvent) (video : StoredVideo) : Xml.Element :=
  branch "ALL_INSTANCES"
    ((events.zipIdx 1).map fun r => instanceElement (safeEventExportRow r.1 video) r.2)

theorem sportscodeTree_map (events : List StoredEvent) (video : StoredVideo) :
    sportscodeTree (events.map fun event => safeEventExportRow event video) =
      branch "file" [timeline events video] := by
  rw [sportscodeTree, timeline, List.zipIdx_map, List.map_map]
  rfl

theorem isWellFormed_timeline (h : ∀ event ∈ events, IsTimely video event) :
    (timeline events video).IsWellFormed := by
  refine isWellFormed_branch (by decide) ?_
  simp only [List.forall_mem_map]
  intro r hr
  exact isWellFormed_instanceElement r.2 (h r.1 (List.fst_mem_of_mem_zipIdx hr))

/-- **The timeline is read back.** -/
theorem showsSportscode_render (h : ∀ event ∈ events, IsTimely video event) :
    ShowsSportscode video events
      (renderSportscodeXml (events.map fun event => safeEventExportRow event video)) := by
  have htree : (branch "file" [timeline events video]).IsWellFormed :=
    isWellFormed_branch (by decide) (List.forall_mem_singleton.mpr (isWellFormed_timeline h))
  have hinstances : ((timeline events video).indent 1).findall "instance" =
      (events.zipIdx 1).map fun r =>
        (instanceElement (safeEventExportRow r.1 video) r.2).indent 2 := by
    rw [Xml.Element.findall_indent, timeline, findall_branch, List.filter_eq_self.mpr, List.map_map]
    · rfl
    · simp only [List.forall_mem_map]
      exact fun r _ => decide_eq_true rfl
  rw [renderSportscodeXml, sportscodeTree_map]
  refine ⟨_, (timeline events video).indent 1, Xml.read_document (htree.indent 0),
    Xml.Element.tag_indent 0 _, ?_, ?_⟩
  · rw [Xml.Element.findall_indent, findall_branch]
    rfl
  · rw [hinstances, List.forall₂_map_right_iff]
    exact List.forall₂_same.mpr fun r hr =>
      isInstance_indent 2 (h r.1 (List.fst_mem_of_mem_zipIdx hr))

/-! ### Exports -/

section

variable {consents : List StoredConsent} {user : Events.Caller} {now : Time}

/-- **The tables of an export are read back**: the CSV file and the manifest hold the events of the
video in that status, in the order of their windows. -/
theorem exported_tables_readBack {csv json : List ℕ} (hlimit : 3 ≤ limit)
    (hcsv : exportVideoEvents events consents user (some video) .csv reviewStatus generatedAt now =
      .ok (.text csv))
    (hjson : exportVideoEvents events consents user
      (some video) .json reviewStatus generatedAt now =
      .ok (.text json))
    (htimely : ∀ event ∈ exported events video reviewStatus, IsTimely video event) :
    ShowsCsv T video (exported events video reviewStatus) csv ∧
      ∃ manifest, loads limit json = .ok manifest ∧
        IsManifest T video reviewStatus generatedAt
          (exported events video reviewStatus) manifest := by
  obtain ⟨-, hcsv⟩ := exportVideoEvents_ok hcsv
  obtain ⟨-, hjson⟩ := exportVideoEvents_ok hjson
  obtain rfl := Content.text.inj hcsv
  obtain rfl := Content.text.inj hjson
  exact ⟨showsCsv_render htimely, isManifest_render hlimit htimely⟩

/-- A shot with the window that its coach gave it. -/
def sampleShot : StoredEvent where
  createdAt := ⟨⟨2024, 2, 29, 23, 59, 59, 0⟩, by decide⟩
  row :=
    { id := 7
      videoId := 0
      teamId := 0
      eventType := .shotMade
      eventTimeMs := 12345
      clipStartTimeMs := some 8010
      clipEndTimeMs := some 19001
      outputFrame := 370
      shotClockEnabled := false
      confidence := none
      reviewStatus := .approved
      eventMetadata := []
      createdAt := Fields.instant ⟨2024, 2, 29, 23, 59, 59, 0⟩ }
  id_lt := by decide
  createdAt_eq := rfl

/-- A rebound before it, with the window that its coach gave it. -/
def sampleRebound : StoredEvent where
  createdAt := ⟨⟨2024, 3, 1, 0, 0, 7, 250⟩, by decide⟩
  row :=
    { sampleShot.row with
      id := 8
      eventType := .rebound
      eventTimeMs := 6007
      clipStartTimeMs := some 3007
      clipEndTimeMs := some 9007
      createdAt := Fields.instant ⟨2024, 3, 1, 0, 0, 7, 250⟩ }
  id_lt := by decide
  createdAt_eq := rfl

def sampleStoredVideo : StoredVideo := ⟨Events.sampleVideo 30, by decide, by decide⟩

/-- The approved events of the video, the earlier one first. -/
theorem exported_sample :
    exported [sampleShot, sampleRebound] sampleStoredVideo .approved =
      [sampleRebound, sampleShot] :=
  rfl

theorem isTimely_sample :
    ∀ event ∈ exported [sampleShot, sampleRebound] sampleStoredVideo .approved,
      IsTimely sampleStoredVideo event := by
  rw [exported_sample]
  simp only [List.forall_mem_cons]
  exact ⟨⟨by decide +kernel, by decide +kernel, by decide⟩,
    ⟨by decide +kernel, by decide +kernel, by decide⟩, fun _ h => (List.not_mem_nil h).elim⟩

/-- A coach of every team asks for the approved events. -/
def sampleExport (consents : List StoredConsent) (exportFormat : ExportFormat) :
    Except ApiError Content :=
  exportVideoEvents [sampleShot, sampleRebound] consents Events.sampleCoach
    (some sampleStoredVideo) exportFormat
    .approved sampleRebound.createdAt 50

/-- The tables with both events. -/
theorem exists_tables_readBack : ∃ csv json manifest, sampleExport [] .csv = .ok (.text csv) ∧
    sampleExport [] .json = .ok (.text json) ∧
      ShowsCsv ⟨fun _ => false, fun _ => none⟩ sampleStoredVideo
        [sampleRebound, sampleShot] csv ∧
      IsManifest ⟨fun _ => false, fun _ => none⟩ sampleStoredVideo .approved sampleRebound.createdAt
        [sampleRebound, sampleShot] manifest := by
  obtain ⟨csv, hcsv⟩ : ∃ csv, sampleExport [] .csv = .ok (.text csv) := ⟨_, rfl⟩
  obtain ⟨json, hjson⟩ : ∃ json, sampleExport [] .json = .ok (.text json) := ⟨_, rfl⟩
  have hlimit : 3 ≤ 1000 := by decide
  obtain ⟨hshows, manifest, -, hmanifest⟩ :=
    exported_tables_readBack hlimit hcsv hjson isTimely_sample
  exact ⟨csv, json, manifest, hcsv, hjson, hshows, hmanifest⟩

/-- **The timeline of an export is read back.** -/
theorem exported_timeline_readsBack {body : List ℕ}
    (h : exportVideoEvents events consents user (some video) .sportscodeXml reviewStatus generatedAt
      now = .ok (.text body))
    (htimely : ∀ event ∈ exported events video reviewStatus, IsTimely video event) :
    ShowsSportscode video (exported events video reviewStatus) body := by
  obtain ⟨-, hcontent⟩ := exportVideoEvents_ok h
  obtain rfl := Content.text.inj hcontent
  exact showsSportscode_render htimely

theorem exists_timeline_readsBack : ∃ body, sampleExport [] .sportscodeXml = .ok (.text body) ∧
    ShowsSportscode sampleStoredVideo [sampleRebound, sampleShot] body := by
  obtain ⟨body, hbody⟩ : ∃ body, sampleExport [] .sportscodeXml = .ok (.text body) := ⟨_, rfl⟩
  exact ⟨body, hbody, exported_timeline_readsBack hbody isTimely_sample⟩

/-- The files of a package all hold the events, and the feedback tells of the consent. -/
structure IsPackage (T : DigitTable) (limit : ℕ) (video : StoredVideo) (reviewStatus : ReviewStatus)
    (generatedAt : Datetime) (events : List StoredEvent) (consent : Option StoredConsent)
    (members : List (String × List ℕ)) : Prop where
  names : members.map Prod.fst = ["README.txt", "reviewed_windows.csv", "manifest.json",
    "sportscode.xml", "review_feedback.json"]
  csv : ∃ text ∈ members.lookup "reviewed_windows.csv", ShowsCsv T video events text
  manifest : ∃ text ∈ members.lookup "manifest.json", ∃ manifest, loads limit text = .ok manifest ∧
    IsManifest T video reviewStatus generatedAt events manifest
  sportscode : ∃ text ∈ members.lookup "sportscode.xml", ShowsSportscode video events text
  feedback : ∃ text ∈ members.lookup "review_feedback.json", ∃ feedback,
    loads limit text = .ok feedback ∧
      IsFeedback T video reviewStatus generatedAt events consent feedback

/-- **The package of an export is read back**, and only administrators get one, and coaches of the
team whose accounts are verified as far as the setting asks for it. -/
theorem exported_package_readsBack {members : List (String × List ℕ)} (hlimit : 3 ≤ limit)
    (h : exportVideoEvents events consents user (some video) .packageZip reviewStatus generatedAt
      now = .ok (.archive members))
    (htimely : ∀ event ∈ exported events video reviewStatus, IsTimely video event) :
    (user.role = .admin ∨ (user.requireVerified = true → user.isVerified = true) ∧
      ∃ teamRole ∈ user.teamRole video.row.teamId, teamRole.isCoach = true) ∧
      IsPackage T limit video reviewStatus generatedAt (exported events video reviewStatus)
        (latestActiveTrainingConsent consents video.row.teamId now) members := by
  obtain ⟨hmay, hcontent⟩ := exportVideoEvents_ok h
  obtain rfl := Content.archive.inj hcontent
  exact ⟨user.admin_or_coach hmay.1 hmay.2, rfl, ⟨_, rfl, showsCsv_render htimely⟩,
    ⟨_, rfl, isManifest_render hlimit htimely⟩, ⟨_, rfl, showsSportscode_render htimely⟩,
    ⟨_, rfl, isFeedback_render hlimit htimely⟩⟩

/-- A package that names the consent of the team. -/
theorem exists_package_readsBack : ∃ members consent,
    sampleExport [⟨Consents.sampleConsent, by decide⟩] .packageZip = .ok (.archive members) ∧
      IsPackage ⟨fun _ => false, fun _ => none⟩ 1000 sampleStoredVideo .approved
        sampleRebound.createdAt [sampleRebound, sampleShot] (some consent) members := by
  obtain ⟨members, hmembers⟩ : ∃ members,
      sampleExport [⟨Consents.sampleConsent, by decide⟩] .packageZip = .ok (.archive members) :=
    ⟨_, rfl⟩
  have hlimit : 3 ≤ 1000 := by decide
  exact ⟨members, _, hmembers,
    (exported_package_readsBack hlimit hmembers isTimely_sample).2⟩

end

end NextBallUp.Exports
