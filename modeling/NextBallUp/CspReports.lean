import NextBallUp.ClientIp
import NextBallUp.Lib.JsonBytes
import NextBallUp.Lib.JsonErrors
import NextBallUp.Tokens.Usable

/-!
# Reports of policy violations

Browsers report violations of the content security policy to an endpoint that anybody may call with
any body. A body that is no JSON object is refused. What an object says is cut to the lengths of the
columns and stored.

## Main definitions

* `createCspReport`, `serve`: the endpoint, and its answer
* `CspReport.fits`: what the table takes
* `IsHandled`: the request is refused, or one row is stored
* `IsHarmless`: the bodies with which it is

## Main results

* `fits_cspReport_iff`: when the table takes what a report says
* `isHandled_iff`: **which requests are handled**
* `exists_not_isHandled`: a line number that is no `Integer`

## What is deliberately absent

The counter of the reports, and outages of the database and of the store of the rate limits.
-/

namespace NextBallUp.CspReports

open JsonText

/-! ### The endpoint -/

/-- The parts of a request that the endpoint reads. The texts of headers are decoded as Latin-1. -/
structure Request where
  contentType : Option (List ℕ)
  contentLength : Option (List ℕ)
  userAgent : Option (List ℕ)
  authorization : Option (List ℕ)
  /-- The cookie with the prefix `__Host-`. -/
  hostCookie : Option (List ℕ)
  accessCookie : Option (List ℕ)
  client : ClientIp.Request
  /-- `request.stream()` -/
  chunks : List (List ℕ)

/-- The columns of `users` that the endpoint reads. -/
structure User where
  id : Uuid
  isActive : Bool
  sessionVersion : ℕ

/-- What a request finds. -/
structure Server where
  /-- How deep `json.loads` nests. -/
  recursionLimit : ℕ
  table : DigitTable
  keys : Tokens.KeyPair
  settings : Tokens.Settings
  trustedProxyIps : List (List ℕ)
  now : Tokens.Datetime
  users : List User
  /-- How many reports the client has sent in the last minute, with this one. -/
  attempts : ℕ

/-- What the endpoint raises. -/
inductive Failure
  /-- An exception that is answered with a status and a text. -/
  | http (status : ℕ) (detail : String)
  /-- An exception of `json.loads` that is not caught. -/
  | json (e : LoadsException)
  /-- A value cannot be encoded for the database, or the table does not take it. -/
  | database
  deriving DecidableEq, Repr

/-- `text.lower()` -/
def lower (text : List ℕ) : List ℕ :=
  text.map fun c => if 65 ≤ c ∧ c ≤ 90 ∨ 0xC0 ≤ c ∧ c ≤ 0xDE ∧ c ≠ 0xD7 then c + 32 else c

/-- `_ALLOWED_CONTENT_TYPES` -/
def allowedContentTypes : List (List ℕ) :=
  ["application/csp-report".codePoints, "application/json".codePoints]

/-- The media type of a header, without its parameters. -/
def mediaType (contentType : Option (List ℕ)) : List ℕ :=
  lower (strip isWhitespace ((contentType.getD []).takeWhile (· ≠ 59)))

/-- `_validate_content_type` -/
def validateContentType (request : Request) : Except Failure Unit :=
  if mediaType request.contentType ∈ allowedContentTypes then .ok ()
  else .error (.http 415 "Unsupported CSP report content type")

/-- `CSP_REPORT_RATE_LIMIT_ATTEMPTS` -/
def rateLimitAttempts : ℕ := 60

/-- `enforce_rate_limit` -/
def enforceRateLimit (server : Server) : Except Failure Unit :=
  if rateLimitAttempts < server.attempts then
    .error (.http 429 "Too many attempts. Please try again later.")
  else .ok ()

/-- `MAX_CSP_REPORT_BYTES` -/
def maxCspReportBytes : ℕ := 8 * 1024

/-- The check of `_read_capped_body` before it reads. -/
def checkContentLength (T : DigitTable) (contentLength : Option (List ℕ)) : Except Failure Unit :=
  match contentLength with
  | none => .ok ()
  | some text =>
    if text = [] then .ok ()
    else
      match T.readInt text with
      | none => .error (.http 400 "Invalid Content-Length")
      | some n =>
        if (maxCspReportBytes : ℤ) < n then .error (.http 413 "CSP report payload too large")
        else .ok ()

/-- The loop of `_read_capped_body`. -/
def readChunks (body : List ℕ) : List (List ℕ) → Except Failure (List ℕ)
  | [] => .ok body
  | chunk :: chunks =>
    if maxCspReportBytes < (body ++ chunk).length then
      .error (.http 413 "CSP report payload too large")
    else readChunks (body ++ chunk) chunks

/-- `_read_capped_body` -/
def readCappedBody (T : DigitTable) (request : Request) : Except Failure (List ℕ) := do
  checkContentLength T request.contentLength
  readChunks [] request.chunks

abbrev Fields := Json.Fields CodePoint

/-- `_decode_report` -/
def decodeReport (recursionLimit : ℕ) (raw : List ℕ) : Except Failure Fields :=
  match decodeStrict raw with
  | none => .error (.http 400 "Malformed CSP report payload")
  | some text =>
    match loadsRaising recursionLimit text with
    | .ok (.obj fields) => .ok fields
    | .ok _ => .error (.http 400 "Malformed CSP report payload")
    | .error .jsonDecodeError => .error (.http 400 "Malformed CSP report payload")
    | .error e => .error (.json e)

/-- `_extract_report` -/
def extractReport (payload : Fields) : Fields :=
  match payload.get "csp-report" with
  | .obj legacy => legacy
  | _ =>
    match payload.get "body" with
    | .obj body => body
    | _ => payload

/-- `_truncate` -/
def truncate (value : Option (List ℕ)) (maxLength : ℕ) : Option (List ℕ) :=
  value.map fun s => s.take maxLength

/-- `_text` -/
def text (report : Fields) (key : String) (maxLength : ℕ) : Option (List ℕ) :=
  truncate ((report.get key).asStr.map codes) maxLength

/-- `_int` -/
def int (T : DigitTable) (report : Fields) (key : String) : Option ℤ :=
  match report.get key with
  | .int n => some n
  | .str s => T.readInt (codes s)
  | _ => none

/-- `value or …` -/
def nonempty (value : Option (List ℕ)) : Option (List ℕ) := value.filter (· ≠ [])

/-- The directive that is reported. -/
def directive (report : Fields) : List ℕ :=
  ((nonempty (text report "violated-directive" 256)).or
    (nonempty (text report "effective-directive" 256))).getD "unknown".codePoints

/-- `_extract_token`; `none` is an exception. -/
def extractToken (request : Request) : Option (List ℕ) :=
  let cookie := (nonempty request.hostCookie).or (nonempty request.accessCookie)
  let authHeader := request.authorization.getD []
  let hasBearer := "bearer ".codePoints.isPrefixOf (lower authHeader)
  match cookie with
  | some token => if hasBearer then none else some token
  | none =>
    if hasBearer then some (strip isWhitespace ((authHeader.dropWhile (· ≠ 32)).drop 1)) else none

/-- `get_optional_current_user` -/
def getOptionalCurrentUser (server : Server) (request : Request) : Option User := do
  let token ← extractToken request
  match Tokens.decodeToken server.keys server.settings server.recursionLimit server.now "access"
    none token with
  | .error _ => none
  | .ok claims =>
    let userId ← Uuid.ofText server.table (← (claims.get "sub").asStr.map codes)
    let user ← server.users.find? fun user => user.id = userId
    if !user.isActive || (claims.get "sv").asInt ≠ some (user.sessionVersion : ℤ) then none
    else some user

/-- A row of `csp_reports`. -/
structure CspReport where
  userId : Option Uuid
  documentUri : Option (List ℕ)
  violatedDirective : List ℕ
  blockedUri : Option (List ℕ)
  sourceFile : Option (List ℕ)
  lineNumber : Option ℤ
  columnNumber : Option ℤ
  userAgent : Option (List ℕ)
  reporterIp : Option (List ℕ)
  deriving DecidableEq, Repr

/-- The row for a report. -/
def cspReport (server : Server) (request : Request) (report : Fields) : CspReport where
  userId := (getOptionalCurrentUser server request).map User.id
  documentUri := text report "document-uri" 1024
  violatedDirective := directive report
  blockedUri := text report "blocked-uri" 512
  sourceFile := text report "source-file" 512
  lineNumber := int server.table report "line-number"
  columnNumber := int server.table report "column-number"
  userAgent := truncate request.userAgent 512
  reporterIp := truncate (ClientIp.clientIp server.trustedProxyIps request.client) 64

/-- A value of `Text`: no null characters, and no surrogates, which have no encoding. -/
def isText (s : List ℕ) : Bool := s.all fun c => c ≠ 0 && !(0xD800 ≤ c && c ≤ 0xDFFF)

/-- A value of `String(maxLength)`. -/
def isString (maxLength : ℕ) (s : List ℕ) : Bool := isText s && s.length ≤ maxLength

/-- A value of `Integer`. -/
def isInteger (n : ℤ) : Bool := -2 ^ 31 ≤ n && n < 2 ^ 31

/-- What the table takes. -/
def CspReport.fits (users : List User) (row : CspReport) : Bool :=
  row.userId.all (fun id => users.any fun user => user.id = id) &&
    row.documentUri.all isText && isString 256 row.violatedDirective &&
    row.blockedUri.all (isString 512) && row.sourceFile.all (isString 512) &&
    row.lineNumber.all isInteger && row.columnNumber.all isInteger &&
    row.userAgent.all (isString 512) && row.reporterIp.all (isString 64)

/-- The commit of a row that was added. -/
def insert (users : List User) (rows : List CspReport) (row : CspReport) :
    Except Failure (List CspReport) :=
  if row.fits users then .ok (rows ++ [row]) else .error .database

/-- `create_csp_report` -/
def createCspReport (server : Server) (request : Request) (rows : List CspReport) :
    Except Failure (List CspReport) := do
  validateContentType request
  enforceRateLimit server
  let payload ← decodeReport server.recursionLimit (← readCappedBody server.table request)
  let report := extractReport payload
  insert server.users rows (cspReport server request report)

/-- The status of the answer and the rows behind it. A session that raises an exception is not
committed, and one that nothing catches is answered with the status 500. -/
def serve (server : Server) (request : Request) (rows : List CspReport) : ℕ × List CspReport :=
  match createCspReport server request rows with
  | .ok rows' => (204, rows')
  | .error (.http status _) => (status, rows)
  | .error _ => (500, rows)

/-! ### Requests that are handled -/

variable {server : Server} {request : Request} {rows : List CspReport} {report : Fields}
  {users : List User}

/-- The request is refused, with nothing stored, or one row is stored that the table takes. -/
def IsHandled (server : Server) (request : Request) (rows : List CspReport) : Prop :=
  (400 ≤ (serve server request rows).1 ∧ (serve server request rows).1 < 500 ∧
      (serve server request rows).2 = rows) ∨
    (serve server request rows).1 = 204 ∧
      ∃ row, (serve server request rows).2 = rows ++ [row] ∧ row.fits server.users = true

/-- The body of the request is decoded. -/
structure IsAdmitted (server : Server) (request : Request) : Prop where
  contentType : mediaType request.contentType ∈ allowedContentTypes
  attempts : server.attempts ≤ rateLimitAttempts
  contentLength : ∀ t ∈ request.contentLength, t ≠ [] →
    ∃ n : ℤ, server.table.readInt t = some n ∧ n ≤ maxCspReportBytes
  length_le : request.chunks.flatten.length ≤ maxCspReportBytes

/-- The value of a member is an integer, or a text that `int` reads as one. -/
def Denotes (T : DigitTable) (value : Json CodePoint) (n : ℤ) : Prop :=
  value = .int n ∨ ∃ s, value = .str s ∧ T.readInt (codes s) = some n

/-- What of the report and of the headers is stored can be stored. -/
structure IsStorable (server : Server) (request : Request) (report : Fields) : Prop where
  documentUri : ∀ s, report.get "document-uri" = .str s → isText ((codes s).take 1024) = true
  violatedDirective : ∀ s, report.get "violated-directive" = .str s →
    isText ((codes s).take 256) = true
  /-- The effective directive is stored if there is no violated one. -/
  effectiveDirective : (∀ s, report.get "violated-directive" = .str s → s = []) →
    ∀ s, report.get "effective-directive" = .str s → isText ((codes s).take 256) = true
  blockedUri : ∀ s, report.get "blocked-uri" = .str s → isText ((codes s).take 512) = true
  sourceFile : ∀ s, report.get "source-file" = .str s → isText ((codes s).take 512) = true
  lineNumber : ∀ n, Denotes server.table (report.get "line-number") n → -2 ^ 31 ≤ n ∧ n < 2 ^ 31
  columnNumber : ∀ n, Denotes server.table (report.get "column-number") n → -2 ^ 31 ≤ n ∧ n < 2 ^ 31
  userAgent : ∀ s ∈ request.userAgent, isText (s.take 512) = true
  reporterIp : ∀ s ∈ ClientIp.clientIp server.trustedProxyIps request.client,
    isText (s.take 64) = true

/-- The body neither nests too deeply nor has an integer with too many digits, and what it reports
can be stored. -/
structure IsHarmless (server : Server) (request : Request) (text : List ℕ) : Prop where
  not_hasLongInteger : ¬ HasLongInteger server.recursionLimit text
  not_opensTooDeep : ¬ OpensTooDeep server.recursionLimit text
  isStorable : ∀ payload, loads server.recursionLimit text = .ok (.obj payload) →
    IsStorable server request (extractReport payload)

/-! ### Values -/

theorem isString_take (maxLength : ℕ) (s : List ℕ) :
    isString maxLength (s.take maxLength) = isText (s.take maxLength) := by
  have hle : (s.take maxLength).length ≤ maxLength := List.length_take_le _ _
  rw [isString, decide_eq_true hle, Bool.and_true]

/-- A text that is cut to the length of its column. -/
theorem all_isString_truncate (value : Option (List ℕ)) (maxLength : ℕ) :
    (truncate value maxLength).all (isString maxLength) = true ↔
      ∀ s ∈ value, isText (s.take maxLength) = true := by
  cases value with
  | none => exact ⟨fun _ s hs => (Option.not_mem_none s hs).elim, fun _ => rfl⟩
  | some s =>
    show isString maxLength (s.take maxLength) = true ↔ _
    rw [isString_take]
    exact ⟨fun h s' hs' => Option.some.inj hs' ▸ h, fun h => h s rfl⟩

theorem all_isText_truncate (value : Option (List ℕ)) (maxLength : ℕ) :
    (truncate value maxLength).all isText = true ↔
      ∀ s ∈ value, isText (s.take maxLength) = true := by
  cases value with
  | none => exact ⟨fun _ s hs => (Option.not_mem_none s hs).elim, fun _ => rfl⟩
  | some s => exact ⟨fun h s' hs' => Option.some.inj hs' ▸ h, fun h => h s rfl⟩

theorem asStr_eq_some_iff {value : Json CodePoint} {s : List CodePoint} :
    value.asStr = some s ↔ value = .str s := by
  cases value with
  | str s' => exact ⟨fun h => congrArg _ (Option.some.inj h), fun h => congrArg Json.asStr h⟩
  | _ => exact ⟨fun h => (Option.some_ne_none _ h.symm).elim, fun h => congrArg Json.asStr h⟩

theorem forall_mem_map_asStr {value : Json CodePoint} {P : List ℕ → Prop} :
    (∀ t ∈ value.asStr.map codes, P t) ↔ ∀ s, value = .str s → P (codes s) := by
  constructor
  · intro h s hs
    exact h _ (Option.mem_map.mpr ⟨s, asStr_eq_some_iff.mpr hs, rfl⟩)
  · intro h t ht
    obtain ⟨s, hs, rfl⟩ := Option.mem_map.mp ht
    exact h s (asStr_eq_some_iff.mp hs)

theorem mem_int {T : DigitTable} {key : String} {n : ℤ} :
    n ∈ int T report key ↔ Denotes T (report.get key) n := by
  rw [int, Denotes]
  cases report.get key with
  | int m => simp [eq_comm]
  | str s => simp
  | _ => simp

theorem all_isInteger_int {T : DigitTable} {key : String} :
    (int T report key).all isInteger = true ↔
      ∀ n, Denotes T (report.get key) n → -2 ^ 31 ≤ n ∧ n < 2 ^ 31 := by
  simp only [Option.all_eq_true, isInteger, Bool.and_eq_true, decide_eq_true_eq]
  exact forall_congr' fun n => imp_congr_left mem_int

/-! ### Directives -/

theorem nonempty_text_eq_some {key : String} {maxLength : ℕ} {t : List ℕ}
    (h : nonempty (text report key maxLength) = some t) :
    ∃ s, report.get key = .str s ∧ s ≠ [] ∧ (codes s).take maxLength = t := by
  obtain ⟨htext, hne⟩ := Option.filter_eq_some_iff.mp h
  obtain ⟨u, hu, rfl⟩ := Option.map_eq_some_iff.mp htext
  obtain ⟨s, hs, rfl⟩ := Option.map_eq_some_iff.mp hu
  refine ⟨s, asStr_eq_some_iff.mp hs, ?_, rfl⟩
  rintro rfl
  exact of_decide_eq_true hne List.take_nil

theorem nonempty_text_eq_none {key : String} {maxLength : ℕ} (hpos : 0 < maxLength)
    (h : nonempty (text report key maxLength) = none) :
    ∀ s, report.get key = .str s → s = [] := by
  intro s hs
  have htext : text report key maxLength = some ((codes s).take maxLength) := by
    rw [text, hs]
    rfl
  have hnil := Option.filter_eq_none_iff.mp h _ htext
  rw [decide_eq_true_iff, not_not, List.take_eq_nil_iff] at hnil
  have hcodes : codes s = [] := hnil.resolve_left hpos.ne'
  exact List.map_eq_nil_iff.mp hcodes

/-- The directive is the first one that is not empty. -/
theorem isString_directive_iff (report : Fields) : isString 256 (directive report) = true ↔
    (∀ s, report.get "violated-directive" = .str s → isText ((codes s).take 256) = true) ∧
      ((∀ s, report.get "violated-directive" = .str s → s = []) →
        ∀ s, report.get "effective-directive" = .str s → isText ((codes s).take 256) = true) := by
  rw [directive]
  cases hviolated : nonempty (text report "violated-directive" 256) with
  | some t =>
    obtain ⟨s, hs, hne, rfl⟩ := nonempty_text_eq_some hviolated
    rw [Option.some_or, Option.getD_some, isString_take]
    constructor
    · intro h
      refine ⟨fun s' hs' => ?_, fun hempty => (hne (hempty s hs)).elim⟩
      rw [hs, Json.str.injEq] at hs'
      rwa [← hs']
    · intro h
      exact h.1 s hs
  | none =>
    have hempty := nonempty_text_eq_none (by decide) hviolated
    have hclean : ∀ s, report.get "violated-directive" = .str s →
        isText ((codes s).take 256) = true := by
      intro s hs
      rw [hempty s hs]
      rfl
    rw [Option.none_or]
    cases heffective : nonempty (text report "effective-directive" 256) with
    | some t =>
      obtain ⟨s, hs, -, rfl⟩ := nonempty_text_eq_some heffective
      rw [Option.getD_some, isString_take]
      constructor
      · intro h
        refine ⟨hclean, fun _ s' hs' => ?_⟩
        rw [hs, Json.str.injEq] at hs'
        rwa [← hs']
      · intro h
        exact h.2 hempty s hs
    | none =>
      have hempty' := nonempty_text_eq_none (by decide) heffective
      rw [Option.getD_none]
      constructor
      · intro _
        refine ⟨hclean, fun _ s hs => ?_⟩
        rw [hempty' s hs]
        rfl
      · intro _
        decide +kernel

/-- The user of a request is one of the users. -/
theorem mem_users_of_getOptionalCurrentUser {user : User}
    (h : getOptionalCurrentUser server request = some user) : user ∈ server.users := by
  rw [getOptionalCurrentUser] at h
  obtain ⟨token, -, h⟩ := Option.bind_eq_some_iff.mp h
  split at h
  · cases h
  · obtain ⟨userId?, -, h⟩ := Option.bind_eq_some_iff.mp h
    obtain ⟨userId, -, h⟩ := Option.bind_eq_some_iff.mp h
    obtain ⟨found, hfound, h⟩ := Option.bind_eq_some_iff.mp h
    split_ifs at h
    obtain rfl := Option.some.inj h
    exact List.mem_of_find?_eq_some hfound

/-- **When the table takes what a report says.** -/
theorem fits_cspReport_iff (server : Server) (request : Request) (report : Fields) :
    (cspReport server request report).fits server.users = true ↔
      IsStorable server request report := by
  have huser : (cspReport server request report).userId.all
      (fun id => server.users.any fun user => user.id = id) = true := by
    rw [Option.all_eq_true]
    intro id hid
    obtain ⟨user, huser, rfl⟩ := Option.map_eq_some_iff.mp hid
    exact List.any_eq_true.mpr ⟨user, mem_users_of_getOptionalCurrentUser huser, decide_eq_true rfl⟩
  rw [CspReport.fits, huser]
  simp only [cspReport, text, Bool.true_and, Bool.and_eq_true, all_isText_truncate,
    all_isString_truncate, forall_mem_map_asStr, isString_directive_iff, all_isInteger_int]
  constructor
  · rintro ⟨⟨⟨⟨⟨⟨⟨huri, hdirective⟩, hblocked⟩, hsource⟩, hline⟩, hcolumn⟩, hagent⟩, hip⟩
    exact ⟨huri, hdirective.1, hdirective.2, hblocked, hsource, hline, hcolumn, hagent, hip⟩
  · intro h
    exact ⟨⟨⟨⟨⟨⟨⟨h.documentUri, h.violatedDirective, h.effectiveDirective⟩, h.blockedUri⟩,
      h.sourceFile⟩, h.lineNumber⟩, h.columnNumber⟩, h.userAgent⟩, h.reporterIp⟩

/-! ### Refusals -/

/-- An exception is raised that is answered as an error of the client. -/
def Declines {α : Type} (x : Except Failure α) : Prop :=
  ∃ status detail, x = .error (.http status detail) ∧ 400 ≤ status ∧ status < 500

theorem Declines.bind {α β : Type} {x : Except Failure α} (h : Declines x)
    (f : α → Except Failure β) : Declines (x >>= f) := by
  obtain ⟨status, detail, rfl, hstatus⟩ := h
  exact ⟨status, detail, rfl, hstatus⟩

theorem declines_http {α : Type} {status : ℕ} (detail : String) (h : 400 ≤ status ∧ status < 500) :
    Declines (.error (.http status detail) : Except Failure α) := ⟨status, detail, rfl, h⟩

theorem checkContentLength_cases (T : DigitTable) (contentLength : Option (List ℕ)) :
    checkContentLength T contentLength = .ok () ∧ (∀ t ∈ contentLength, t ≠ [] →
        ∃ n : ℤ, T.readInt t = some n ∧ n ≤ maxCspReportBytes) ∨
      Declines (checkContentLength T contentLength) ∧ ¬ (∀ t ∈ contentLength, t ≠ [] →
        ∃ n : ℤ, T.readInt t = some n ∧ n ≤ maxCspReportBytes) := by
  cases contentLength with
  | none => exact .inl ⟨rfl, fun t ht => (Option.not_mem_none t ht).elim⟩
  | some t =>
    simp only [checkContentLength, Option.mem_some_iff, forall_eq']
    split_ifs with hnil
    · exact .inl ⟨rfl, fun hne => (hne hnil).elim⟩
    · cases hread : T.readInt t with
      | none =>
        refine .inr ⟨declines_http _ (by decide), fun h => ?_⟩
        obtain ⟨n, hn, -⟩ := h hnil
        cases hn
      | some n =>
        dsimp only
        split_ifs with hlarge
        · refine .inr ⟨declines_http _ (by decide), fun h => ?_⟩
          obtain ⟨m, hm, hle⟩ := h hnil
          rw [← Option.some.inj hm] at hle
          exact absurd hle (not_le.mpr hlarge)
        · exact .inl ⟨rfl, fun _ => ⟨n, rfl, not_lt.mp hlarge⟩⟩

/-- The loop reads the body, unless it is too long. -/
theorem readChunks_eq (chunks : List (List ℕ)) {body : List ℕ}
    (h : body.length ≤ maxCspReportBytes) : readChunks body chunks =
      if (body ++ chunks.flatten).length ≤ maxCspReportBytes then .ok (body ++ chunks.flatten)
      else .error (.http 413 "CSP report payload too large") := by
  induction chunks generalizing body with
  | nil => rw [readChunks, List.flatten_nil, List.append_nil, if_pos h]
  | cons chunk chunks ih =>
    rw [readChunks, List.flatten_cons, ← List.append_assoc]
    by_cases hlong : maxCspReportBytes < (body ++ chunk).length
    · have hlong' : ¬ (body ++ chunk ++ chunks.flatten).length ≤ maxCspReportBytes := by
        rw [List.length_append]
        omega
      rw [if_pos hlong, if_neg hlong']
    · rw [if_neg hlong, ih (not_lt.mp hlong)]

/-- Whoever may not send the body is refused. -/
theorem declines_of_not_isAdmitted (h : ¬ IsAdmitted server request) (rows : List CspReport) :
    Declines (createCspReport server request rows) := by
  by_cases htype : mediaType request.contentType ∈ allowedContentTypes
  case neg =>
    rw [createCspReport, validateContentType, if_neg htype]
    exact declines_http _ (by decide)
  rw [createCspReport, validateContentType, if_pos htype]
  by_cases hattempts : rateLimitAttempts < server.attempts
  · rw [enforceRateLimit, if_pos hattempts]
    exact declines_http _ (by decide)
  rw [enforceRateLimit, if_neg hattempts]
  show Declines (readCappedBody server.table request >>= _)
  refine Declines.bind ?_ _
  rcases checkContentLength_cases server.table request.contentLength with
    ⟨hcheck, hlength⟩ | ⟨hcheck, -⟩
  · rw [readCappedBody, hcheck]
    show Declines (readChunks [] request.chunks)
    rw [readChunks_eq _ (Nat.zero_le _), List.nil_append]
    split_ifs with hle
    · exact (h ⟨htype, not_lt.mp hattempts, hlength, hle⟩).elim
    · exact declines_http _ (by decide)
  · rw [readCappedBody]
    exact hcheck.bind _

theorem createCspReport_of_isAdmitted (h : IsAdmitted server request) (rows : List CspReport) :
    createCspReport server request rows =
      decodeReport server.recursionLimit request.chunks.flatten >>= fun payload =>
        insert server.users rows (cspReport server request (extractReport payload)) := by
  have hcheck : checkContentLength server.table request.contentLength = .ok () := by
    rcases checkContentLength_cases server.table request.contentLength with
      ⟨hcheck, -⟩ | ⟨-, hlength⟩
    · exact hcheck
    · exact (hlength h.contentLength).elim
  have hread : readCappedBody server.table request = .ok request.chunks.flatten := by
    rw [readCappedBody, hcheck]
    show readChunks [] request.chunks = _
    rw [readChunks_eq _ (Nat.zero_le _), List.nil_append, if_pos h.length_le]
  rw [createCspReport, validateContentType, if_pos h.contentType, enforceRateLimit,
    if_neg (not_lt.mpr h.attempts), hread]
  rfl

theorem isHandled_of_declines (h : Declines (createCspReport server request rows)) :
    IsHandled server request rows := by
  obtain ⟨status, detail, hdeclines, hlow, hhigh⟩ := h
  have hserve : serve server request rows = (status, rows) := by
    rw [serve, hdeclines]
  refine .inl ?_
  rw [hserve]
  exact ⟨hlow, hhigh, rfl⟩

/-- An exception that nothing catches. -/
theorem not_isHandled_of_error {e : Failure} (h : createCspReport server request rows = .error e)
    (he : ∀ status detail, e ≠ .http status detail) : ¬ IsHandled server request rows := by
  have hserve : serve server request rows = (500, rows) := by
    rw [serve, h]
    cases e with
    | http status detail => exact (he status detail rfl).elim
    | json _ | database => rfl
  rintro (⟨-, hlt, -⟩ | ⟨heq, -⟩)
  · rw [hserve] at hlt
    exact lt_irrefl _ hlt
  · rw [hserve] at heq
    cases heq

/-- A report is stored if the table takes it. -/
theorem isHandled_insert_iff
    (h : createCspReport server request rows =
      insert server.users rows (cspReport server request report)) :
    IsHandled server request rows ↔ IsStorable server request report := by
  rw [← fits_cspReport_iff]
  by_cases hfits : (cspReport server request report).fits server.users = true
  · rw [insert, if_pos hfits] at h
    have hserve : serve server request rows = (204, rows ++ [cspReport server request report]) := by
      rw [serve, h]
    refine iff_of_true (.inr ?_) hfits
    rw [hserve]
    exact ⟨rfl, _, rfl, hfits⟩
  · rw [insert, if_neg hfits] at h
    exact iff_of_false (not_isHandled_of_error h fun _ _ he => by cases he) hfits

/-- A text at which neither exception is raised is harmless if what it reports can be stored. -/
theorem isHarmless_iff_isStorable {text : List ℕ} {result : Except LoadsException (Json CodePoint)}
    (h : loadsRaising server.recursionLimit text = result) (hvalue : result ≠ .error .valueError)
    (hrecursion : result ≠ .error .recursionError) : IsHarmless server request text ↔
      ∀ payload, loads server.recursionLimit text = .ok (.obj payload) →
        IsStorable server request (extractReport payload) := by
  constructor
  · intro hharmless
    exact hharmless.isStorable
  · intro hstorable
    refine ⟨fun hlong => hvalue ?_, fun hdeep => hrecursion ?_, hstorable⟩
    · rw [← h, loadsRaising_eq_valueError_iff.mpr hlong]
    · rw [← h, loadsRaising_eq_recursionError_iff.mpr hdeep]

/-- A body that is text is handled if it is harmless. -/
theorem isHandled_iff_isHarmless {text : List ℕ} (hadmitted : IsAdmitted server request)
    (hdecode : decodeStrict request.chunks.flatten = some text) (rows : List CspReport) :
    IsHandled server request rows ↔ IsHarmless server request text := by
  have hcreate := createCspReport_of_isAdmitted hadmitted rows
  have hloads := mapError_loadsRaising server.recursionLimit text
  rw [decodeReport, hdecode] at hcreate
  dsimp only at hcreate
  cases hraising : loadsRaising server.recursionLimit text with
  | error e =>
    rw [hraising] at hcreate hloads
    cases e with
    | jsonDecodeError =>
      rw [isHarmless_iff_isStorable hraising (by rintro ⟨⟩) (by rintro ⟨⟩)]
      refine iff_of_true (isHandled_of_declines ?_) fun payload h => ?_
      · rw [hcreate]
        exact declines_http _ (by decide)
      · rw [← hloads] at h
        cases h
    | valueError =>
      refine iff_of_false (not_isHandled_of_error hcreate fun _ _ he => by cases he) fun h => ?_
      exact h.not_hasLongInteger (loadsRaising_eq_valueError_iff.mp hraising)
    | recursionError =>
      refine iff_of_false (not_isHandled_of_error hcreate fun _ _ he => by cases he) fun h => ?_
      exact h.not_opensTooDeep (loadsRaising_eq_recursionError_iff.mp hraising)
  | ok value =>
    rw [hraising] at hcreate hloads
    rw [isHarmless_iff_isStorable hraising (by rintro ⟨⟩) (by rintro ⟨⟩), ← hloads]
    by_cases hobj : ∃ fields, value = .obj fields
    · obtain ⟨fields, rfl⟩ := hobj
      have hinsert : createCspReport server request rows =
          insert server.users rows (cspReport server request (extractReport fields)) := hcreate
      rw [isHandled_insert_iff hinsert]
      constructor
      · intro hstorable payload hpayload
        cases hpayload
        exact hstorable
      · intro h
        exact h fields rfl
    · refine iff_of_true (isHandled_of_declines ?_) fun payload hpayload => ?_
      · cases value with
        | obj fields => exact (hobj ⟨fields, rfl⟩).elim
        | _ =>
          rw [hcreate]
          exact declines_http _ (by decide)
      · exact (hobj ⟨payload, Except.ok.inj hpayload⟩).elim

/-- **Which requests are handled.** -/
theorem isHandled_iff (server : Server) (request : Request) (rows : List CspReport) :
    IsHandled server request rows ↔ (IsAdmitted server request →
      ∀ text, decodeStrict request.chunks.flatten = some text →
        IsHarmless server request text) := by
  by_cases hadmitted : IsAdmitted server request
  case neg =>
    exact iff_of_true (isHandled_of_declines (declines_of_not_isAdmitted hadmitted rows))
      fun h => (hadmitted h).elim
  cases hdecode : decodeStrict request.chunks.flatten with
  | none =>
    have hcreate := createCspReport_of_isAdmitted hadmitted rows
    rw [decodeReport, hdecode] at hcreate
    refine iff_of_true (isHandled_of_declines ?_) fun _ text htext => ?_
    · rw [hcreate]
      exact declines_http _ (by decide)
    · cases htext
  | some text =>
    rw [isHandled_iff_isHarmless hadmitted hdecode rows]
    constructor
    · intro h _ text' htext'
      rwa [← Option.some.inj htext']
    · intro h
      exact h hadmitted text rfl

/-- A server without users and proxies that decodes no other scripts. -/
def sampleServer : Server where
  recursionLimit := 1000
  table := ⟨fun _ => false, fun _ => none⟩
  keys := Tokens.keyOf []
  settings := Tokens.Settings.default
  trustedProxyIps := []
  now := ⟨0, by decide⟩
  users := []
  attempts := 1

/-- The report of a line number. -/
def sampleRequest (lineNumber : String) : Request where
  contentType := some "application/csp-report".codePoints
  contentLength := none
  userAgent := none
  authorization := none
  hostCookie := none
  accessCookie := none
  client := ⟨some "198.51.100.7".codePoints, none⟩
  chunks := ["\x7b\"line-number\":".codePoints, lineNumber.codePoints, "\x7d".codePoints]

example : (serve sampleServer (sampleRequest "12") []).1 = 204 := by decide +kernel

/-- **A line number that is no `Integer`** is an error of the server. -/
theorem exists_not_isHandled : ∃ server request, request.chunks.flatten.length ≤ maxCspReportBytes ∧
    mediaType request.contentType ∈ allowedContentTypes ∧ ¬ IsHandled server request [] := by
  have hstatus : (serve sampleServer (sampleRequest "2147483648") []).1 = 500 := by decide +kernel
  refine ⟨sampleServer, sampleRequest "2147483648", by decide +kernel, by decide +kernel, ?_⟩
  rintro (⟨-, hlt, -⟩ | ⟨heq, -⟩)
  · omega
  · omega

end NextBallUp.CspReports
