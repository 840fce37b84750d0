import NextBallUp.Rows
import NextBallUp.Lib.Strings
import NextBallUp.Tokens.Usable

/-!
# Playback

`_try_issue_playback` and `verify_playback_token` of `routers/videos.py`, with `require_team_member`
of `permissions.py`. A page that shows a video is handed a URL of the storage and a playback token,
and asks from time to time whether it may keep playing.

The URL is a capability of the storage and cannot be taken back. What a logout or the loss of a
membership takes back is the token.

## What is deliberately absent

Row-level security, as a view holds what the request sees. All of the answer of `get_video` but the
playback, and the audit log.

## Main definitions

* `View`: what a request finds
* `getVideo`, `verifyPlaybackToken`: the two requests
* `IsGranted`: when playback is granted, and of which object
* `MayKeepPlaying`: when it goes on

## Main results

* `getVideo_eq_some_iff`: **playback is of the first object that is intact**
* `verifyPlaybackToken_of_granted`: **what was granted goes on as long as the video, the session
  and the membership do**
* `exists_verifyPlaybackToken`: a logout takes it back
-/

namespace NextBallUp.Tokens.Playback

/-! ### What a request finds -/

/-- A row of `videos`, as far as playback looks at it. -/
structure Video where
  teamId : Uuid
  status : VideoStatus
  storageKeyHls : Option (List ℕ)
  storageKeyMezzanine : Option (List ℕ)
  storageOutputSha256 : Option (List ℕ)

/-- What the storage says of an object. -/
structure Head where
  /-- `ContentLength`, if that is an `int`. -/
  contentLength : Option ℤ
  /-- The texts in `Metadata`, which is a `dict`. -/
  metadata : List (List ℕ × List ℕ)

/-- A `StoragePresigner`. An error is the message of a `StorageFailureError`. -/
structure Storage where
  headObject : (key : List ℕ) → Except String (Option Head)
  presignGet : (key : List ℕ) → (expiresIn : ℤ) → (responseContentType : Option String) →
    Except String String

/-- The settings of playback. -/
structure PlaybackSettings extends Settings where
  playbackUrlExpiresSeconds : ℤ

/-- The defaults of `nextballup_core.settings`. -/
def PlaybackSettings.default : PlaybackSettings where
  toSettings := Settings.default
  playbackUrlExpiresSeconds := 600

/-- What a request of a user finds: their own row, the videos that they can see, and the time. -/
structure View where
  user : User
  videos : Uuid → Option Video
  now : Datetime

inductive Failure
  | token (e : Tokens.Failure)
  /-- The body of the request is not as its schema says. -/
  | unprocessable
  | notFound (message : String)
  | forbidden (message : String)
  | storage (message : String)
  /-- A time that is no date. -/
  | overflow

/-! ### Members -/

/-- `get_team_membership` finds one. -/
def isActiveMember (user : User) (teamId : Uuid) : Bool :=
  user.teamMemberships.any fun m => m.teamId = teamId && m.isActive

/-- `require_team_member`. The membership it returns is not used here. -/
def requireTeamMember (user : User) (teamId : Uuid) : Except Failure Unit :=
  if user.role = .admin then .ok ()
  else if isActiveMember user teamId then .ok ()
  else .error (.forbidden "You are not a member of this team")

/-- Who may watch the videos of a team. -/
def MayWatch (user : User) (teamId : Uuid) : Prop :=
  user.role = .admin ∨ isActiveMember user teamId = true

theorem requireTeamMember_eq_ok_iff {user : User} {teamId : Uuid} :
    requireTeamMember user teamId = .ok () ↔ MayWatch user teamId := by
  unfold requireTeamMember MayWatch
  split_ifs with hadmin hmember
  · exact iff_of_true rfl (.inl hadmin)
  · exact iff_of_true rfl (.inr hmember)
  · refine iff_of_false (by simp) ?_
    rintro (h | h)
    · exact hadmin h
    · exact hmember h

/-! ### Handing out playback -/

/-- `_playback_content_type` -/
def playbackContentType (fmt : String) : Option String :=
  if fmt = "hls" then some "application/vnd.apple.mpegurl"
  else if fmt = "mp4" then some "video/mp4"
  else none

/-- A text that is there and not empty. -/
def present (text : Option (List ℕ)) : Option (List ℕ) := text.filter (· ≠ [])

/-- `_playback_candidates` -/
def playbackCandidates (video : Video) : List (List ℕ × String) :=
  (present video.storageKeyHls).toList.map (·, "hls") ++
    (present video.storageKeyMezzanine).toList.map (·, "mp4")

/-- `_object_metadata_value` -/
def objectMetadataValue (U : Unicode) (head : Head) (key : String) : Option (List ℕ) :=
  (head.metadata.lookup key.codePoints).map U.lower

/-- The object is not the one that was recorded. -/
def digestDiffers (U : Unicode) (video : Video) (fmt : String) (head : Head) : Bool :=
  match present video.storageOutputSha256 with
  | none => false
  | some sha256 =>
    fmt = "mp4" && objectMetadataValue U head "nbu-output-sha256" ≠ some (U.lower sha256)

/-- `_PlaybackArtifact` -/
structure Artifact where
  url : String
  token : List ℕ
  fmt : String
  /-- In microseconds since 1970. -/
  expiresAt : ℤ

section Issue

variable (U : Unicode) (K : KeyPair) (S : PlaybackSettings)

/-- `url_ttl_seconds` -/
def urlTtlSeconds : ℤ := min S.playbackUrlExpiresSeconds S.playbackTokenExpireSeconds

/-- `create_playback_token`, which also returns when the token expires. -/
def createPlaybackToken (r : Request) (now : Datetime) : Except Failure (List ℕ × ℤ) :=
  match mint K S.toSettings r now, now.later (r.kind.lifetime S.toSettings) with
  | some token, some expiresAt => .ok (token, expiresAt)
  | _, _ => .error .overflow

/-- The loop of `_try_issue_playback`. -/
def issueFirst (storage : Storage) (video : Video) (r : Request) (now : Datetime) :
    List (List ℕ × String) → Except Failure (Option Artifact)
  | [] => .ok none
  | (storageKey, fmt) :: rest => do
    match ← (storage.headObject storageKey).mapError .storage with
    | none => issueFirst storage video r now rest
    | some head =>
      if head.contentLength = some 0 then issueFirst storage video r now rest
      else if digestDiffers U video fmt head then issueFirst storage video r now rest
      else
        let url ← (storage.presignGet storageKey (urlTtlSeconds S)
          (playbackContentType fmt)).mapError .storage
        let (token, expiresAt) ← createPlaybackToken K S r now
        return some ⟨url, token, fmt, expiresAt⟩

/-- `_try_issue_playback` -/
def tryIssuePlayback (videoId : Uuid) (video : Video) (user : User) (storage : Option Storage)
    (jti : Uuid) (now : Datetime) : Except Failure (Option Artifact) :=
  if video.status ≠ .processed then .ok none
  else if playbackCandidates video = [] then .ok none
  else
    match storage with
    | none => .ok none
    | some storage =>
      issueFirst U K S storage video ⟨user, jti, .playback videoId video.teamId⟩ now
        (playbackCandidates video)

/-- The playback in the answer of `get_video`. -/
def getVideo (w : View) (videoId : Uuid) (storage : Option Storage) (jti : Uuid) :
    Except Failure (Option Artifact) :=
  match w.videos videoId with
  | none => .error (.notFound "Video not found")
  | some video => do
    requireTeamMember w.user video.teamId
    tryIssuePlayback U K S videoId video w.user storage jti w.now

end Issue

/-! ### Asking again -/

/-- `PlaybackVerifyResponse` -/
structure VerifyResponse where
  videoId : Uuid
  /-- In microseconds since 1970. -/
  expiresAt : ℤ

/-- The most characters that `PlaybackVerifyRequest` takes. -/
def maxTokenLength : ℕ := 4096

/-- `datetime.fromtimestamp(seconds)` -/
def fromTimestamp (seconds : ℤ) : Except Failure ℤ :=
  let micros := seconds * 10 ^ 6
  if datetimeMin ≤ micros ∧ micros ≤ datetimeMax then .ok micros else .error .overflow

/-- `uuid.UUID(claims[key])` -/
def uuidClaim (T : DigitTable) (decoded : Claims) (key : String) : Except Failure Uuid :=
  match (decoded.get key).asStr.bind fun s => Uuid.ofText T (codes s) with
  | some u => .ok u
  | none => .error (.token (.authentication "Malformed playback token"))

/-- `verify_playback_token` -/
def verifyPlaybackToken (T : DigitTable) (K : KeyPair) (S : PlaybackSettings) (limit : ℕ) (w : View)
    (videoId : Uuid) (token : List ℕ) : Except Failure VerifyResponse := do
  if token = [] ∨ maxTokenLength < token.length then throw .unprocessable
  let decoded ← (decodeToken K S.toSettings limit w.now "playback" (some S.playbackTokenAudience)
    token).mapError .token
  let tokenUserId ← uuidClaim T decoded "sub"
  let tokenVideoId ← uuidClaim T decoded "vid"
  let tokenTeamId ← uuidClaim T decoded "tid"
  if tokenVideoId ≠ videoId then
    throw (.token (.authentication "Playback token does not match video"))
  if tokenUserId ≠ w.user.id then
    throw (.token (.authentication "Playback token belongs to a different user"))
  if (decoded.get "sv").asInt ≠ some (w.user.sessionVersion : ℤ) then
    throw (.token (.authentication "Session has been invalidated"))
  match w.videos videoId with
  | none => throw (.notFound "Video not found")
  | some video =>
    if video.teamId ≠ tokenTeamId then
      throw (.token (.authentication "Playback token tenant mismatch"))
    requireTeamMember w.user video.teamId
    match (decoded.get "exp").asInt with
    -- The decoder has checked that it is an integer.
    | none => throw .unprocessable
    | some exp => return ⟨videoId, ← fromTimestamp exp⟩

/-! ### What is granted -/

/-- The object can be played. -/
def isIntact (U : Unicode) (video : Video) (fmt : String) : Option Head → Bool
  | none => false
  | some head => head.contentLength ≠ some 0 && !digestDiffers U video fmt head

section Grants

variable {U : Unicode} {K : KeyPair} {S : PlaybackSettings} {st : Storage} {video : Video}
  {r : Request} {now : Datetime} {storageKey : List ℕ} {fmt : String} {head : Option Head}
  {rest : List (List ℕ × String)} {a : Artifact}

theorem issueFirst_of_not_isIntact (hhead : st.headObject storageKey = .ok head)
    (h : isIntact U video fmt head = false) :
    issueFirst U K S st video r now ((storageKey, fmt) :: rest) =
      issueFirst U K S st video r now rest := by
  rw [issueFirst, hhead]
  cases head with
  | none => rfl
  | some head =>
    show (if head.contentLength = some 0 then _ else _) = _
    split_ifs with hempty hdiffers
    · rfl
    · rfl
    · simp [isIntact, hempty, hdiffers] at h

theorem issueFirst_of_isIntact (hhead : st.headObject storageKey = .ok head)
    (h : isIntact U video fmt head = true) :
    issueFirst U K S st video r now ((storageKey, fmt) :: rest) = (do
      let url ← (st.presignGet storageKey (urlTtlSeconds S)
        (playbackContentType fmt)).mapError .storage
      let (token, expiresAt) ← createPlaybackToken K S r now
      return some ⟨url, token, fmt, expiresAt⟩) := by
  rw [issueFirst, hhead]
  cases head with
  | none => cases h
  | some head =>
    simp only [isIntact, ne_eq, decide_not, Bool.and_eq_true, Bool.not_eq_true',
      decide_eq_false_iff_not] at h
    show (if head.contentLength = some 0 then _ else _) = _
    rw [if_neg h.1, h.2]
    rfl

/-- The storage says that the object cannot be played. -/
def IsPassedOver (U : Unicode) (st : Storage) (video : Video) (c : List ℕ × String) : Prop :=
  ∃ head, st.headObject c.1 = .ok head ∧ isIntact U video c.2 head = false

/-- The object is played under the URL, with the token. -/
structure IsPlayed (U : Unicode) (K : KeyPair) (S : PlaybackSettings) (st : Storage) (video : Video)
    (r : Request) (now : Datetime) (storageKey : List ℕ) (a : Artifact) : Prop where
  intact : ∃ head, st.headObject storageKey = .ok head ∧ isIntact U video a.fmt head = true
  url : st.presignGet storageKey (urlTtlSeconds S) (playbackContentType a.fmt) = .ok a.url
  token : createPlaybackToken K S r now = .ok (a.token, a.expiresAt)

theorem IsPlayed.issueFirst (h : IsPlayed U K S st video r now storageKey a) :
    issueFirst U K S st video r now ((storageKey, a.fmt) :: rest) = .ok (some a) := by
  obtain ⟨head, hhead, hintact⟩ := h.intact
  rw [issueFirst_of_isIntact hhead hintact, h.url, h.token]
  rfl

theorem isPlayed_of_eq (hhead : st.headObject storageKey = .ok head)
    (hintact : isIntact U video fmt head = true)
    (h : issueFirst U K S st video r now ((storageKey, fmt) :: rest) = .ok (some a)) :
    a.fmt = fmt ∧ IsPlayed U K S st video r now storageKey a := by
  rw [issueFirst_of_isIntact hhead hintact] at h
  obtain ⟨url, hurl, h⟩ := Except.exists_of_bind_eq_ok h
  obtain ⟨⟨token, expiresAt⟩, htoken, h⟩ := Except.exists_of_bind_eq_ok h
  obtain rfl := Option.some.inj (Except.ok.inj h)
  exact ⟨rfl, ⟨head, hhead, hintact⟩, Except.eq_ok_of_mapError hurl, htoken⟩

/-- **The loop ends at the first object that is intact.** -/
theorem issueFirst_eq_some_iff {candidates : List (List ℕ × String)} :
    issueFirst U K S st video r now candidates = .ok (some a) ↔
      ∃ before storageKey after, candidates = before ++ (storageKey, a.fmt) :: after ∧
        (∀ c ∈ before, IsPassedOver U st video c) ∧
        IsPlayed U K S st video r now storageKey a := by
  induction candidates with
  | nil =>
    refine iff_of_false (by simp [issueFirst]) ?_
    rintro ⟨before, storageKey, after, h, -⟩
    exact List.cons_ne_nil _ _ (List.append_eq_nil_iff.mp h.symm).2
  | cons c rest ih =>
    obtain ⟨key, fmt⟩ := c
    constructor
    · intro h
      cases hhead : st.headObject key with
      | error m =>
        rw [issueFirst, hhead] at h
        cases h
      | ok head =>
        cases hintact : isIntact U video fmt head with
        | true =>
          obtain ⟨rfl, hplayed⟩ := isPlayed_of_eq hhead hintact h
          exact ⟨[], key, rest, rfl, by simp, hplayed⟩
        | false =>
          rw [issueFirst_of_not_isIntact hhead hintact] at h
          obtain ⟨before, storageKey, after, rfl, hbefore, hplayed⟩ := ih.mp h
          refine ⟨(key, fmt) :: before, storageKey, after, rfl, ?_, hplayed⟩
          exact List.forall_mem_cons.mpr ⟨⟨head, hhead, hintact⟩, hbefore⟩
    · rintro ⟨before, storageKey, after, h, hbefore, hplayed⟩
      cases before with
      | nil =>
        obtain ⟨hc, -⟩ := List.cons.inj h
        rw [hc]
        exact hplayed.issueFirst
      | cons d before =>
        obtain ⟨rfl, rfl⟩ := List.cons.inj h
        obtain ⟨⟨head, hhead, hintact⟩, hbefore⟩ := List.forall_mem_cons.mp hbefore
        rw [issueFirst_of_not_isIntact hhead hintact]
        exact ih.mpr ⟨before, storageKey, after, rfl, hbefore, hplayed⟩

end Grants

section Requests

variable {U : Unicode} {K : KeyPair} {S : PlaybackSettings} {T : DigitTable} {limit : ℕ}
  {w : View} {videoId jti : Uuid} {storage : Option Storage} {a : Artifact}

/-- What the token of a grant is minted from. -/
def grantRequest (w : View) (videoId : Uuid) (video : Video) (jti : Uuid) : Request :=
  ⟨w.user, jti, .playback videoId video.teamId⟩

/-- Playback is granted of an object of a processed video, to someone who may watch it. -/
structure IsGranted (U : Unicode) (K : KeyPair) (S : PlaybackSettings) (w : View) (videoId : Uuid)
    (jti : Uuid) (video : Video) (st : Storage) (a : Artifact) : Prop where
  mayWatch : MayWatch w.user video.teamId
  processed : video.status = .processed
  /-- The stream is preferred to the file, and the preferred of the intact objects is played. -/
  played : ∃ before storageKey after,
    playbackCandidates video = before ++ (storageKey, a.fmt) :: after ∧
      (∀ c ∈ before, IsPassedOver U st video c) ∧
      IsPlayed U K S st video (grantRequest w videoId video jti) w.now storageKey a

theorem tryIssuePlayback_eq_some_iff {video : Video} :
    tryIssuePlayback U K S videoId video w.user storage jti w.now = .ok (some a) ↔
      video.status = .processed ∧ ∃ st, storage = some st ∧
        issueFirst U K S st video (grantRequest w videoId video jti) w.now
          (playbackCandidates video) = .ok (some a) := by
  unfold tryIssuePlayback
  split_ifs with hstatus hnone
  · exact iff_of_false (by simp) fun h => hstatus h.1
  · refine iff_of_false (by simp) ?_
    rintro ⟨-, st, -, h⟩
    rw [hnone] at h
    cases h
  · cases storage with
    | none => exact iff_of_false (by simp) fun ⟨_, _, h, _⟩ => by cases h
    | some st =>
      constructor
      · exact fun h => ⟨not_not.mp hstatus, st, rfl, h⟩
      · rintro ⟨-, st', hst, h⟩
        obtain rfl := Option.some.inj hst
        exact h

/-- **Playback is of the first object that is intact.** -/
theorem getVideo_eq_some_iff : getVideo U K S w videoId storage jti = .ok (some a) ↔
    ∃ video st, w.videos videoId = some video ∧ storage = some st ∧
      IsGranted U K S w videoId jti video st a := by
  unfold getVideo
  cases hv : w.videos videoId with
  | none => exact iff_of_false (by simp) fun ⟨_, _, h, _⟩ => by cases h
  | some video =>
    constructor
    · intro h
      obtain ⟨⟨⟩, hmember, h⟩ := Except.exists_of_bind_eq_ok h
      obtain ⟨hstatus, st, hst, h⟩ := tryIssuePlayback_eq_some_iff.mp h
      exact ⟨video, st, rfl, hst, requireTeamMember_eq_ok_iff.mp hmember, hstatus,
        issueFirst_eq_some_iff.mp h⟩
    · rintro ⟨video', st, hvideo, hst, h⟩
      obtain rfl := Option.some.inj hvideo
      show (requireTeamMember w.user video.teamId >>= _) = _
      rw [requireTeamMember_eq_ok_iff.mpr h.mayWatch]
      exact tryIssuePlayback_eq_some_iff.mpr
        ⟨h.processed, st, hst, issueFirst_eq_some_iff.mpr h.played⟩

/-! ### What goes on -/

/-- What was granted at one view may go on at another one. -/
structure MayKeepPlaying (granted w : View) (teamId videoId : Uuid) (a : Artifact) : Prop where
  /-- The schema of the request takes the token. -/
  short : a.token.length ≤ maxTokenLength
  user : w.user.id = granted.user.id
  session : w.user.sessionVersion = granted.user.sessionVersion
  /-- The token expires in a second that is still to come, and in the year 9999 or before. -/
  alive : timestamp w.now.micros < timestamp a.expiresAt
  date : timestamp a.expiresAt * 10 ^ 6 ≤ datetimeMax
  video : ∃ video, w.videos videoId = some video ∧ video.teamId = teamId
  mayWatch : MayWatch w.user teamId

theorem fromTimestamp_eq_ok_iff {seconds micros : ℤ} (h : 0 ≤ seconds) :
    fromTimestamp seconds = .ok micros ↔
      seconds * 10 ^ 6 ≤ datetimeMax ∧ micros = seconds * 10 ^ 6 := by
  have hmin : datetimeMin ≤ seconds * 10 ^ 6 := by
    unfold datetimeMin
    omega
  unfold fromTimestamp
  dsimp only
  split_ifs with hrange
  · constructor
    · exact fun he => ⟨hrange.2, (Except.ok.inj he).symm⟩
    · rintro ⟨-, rfl⟩
      rfl
  · exact iff_of_false (by simp) fun hd => hrange ⟨hmin, hd.1⟩

theorem eq_of_createPlaybackToken {r : Request} {now : Datetime} {token : List ℕ} {expiresAt : ℤ}
    (h : createPlaybackToken K S r now = .ok (token, expiresAt)) :
    mint K S.toSettings r now = some token ∧ expiry S.toSettings r now = timestamp expiresAt := by
  unfold createPlaybackToken at h
  split at h
  · next token' expiresAt' htoken hlater =>
    obtain ⟨rfl, rfl⟩ := Prod.mk.inj (Except.ok.inj h)
    refine ⟨htoken, ?_⟩
    unfold Datetime.later at hlater
    dsimp only at hlater
    split_ifs at hlater
    rw [← Option.some.inj hlater, expiry]
  · cases h

section Claims

variable {r : Request} {iat exp : ℤ} {teamId : Uuid}

theorem asStr_mark_str (text : List ℕ) :
    (Json.mark (.str text)).asStr = some (text.map JsonText.mark) := rfl

/-- The identifiers in a token are read as they were written. -/
theorem uuidClaim_eq {key : String} {u : Uuid}
    (h : (claims S.toSettings r iat exp).get key = .str u.str) :
    uuidClaim T (decodedClaims S.toSettings r iat exp) key = .ok u := by
  unfold uuidClaim
  rw [get_decodedClaims, h, asStr_mark_str, Option.bind_some, JsonText.codes_map_mark,
    Uuid.ofText_str]

/-- What is checked of the video. -/
theorem watch_eq_ok_iff {v : Uuid} {response : VerifyResponse} (hpos : 0 ≤ exp) :
    (match w.videos v with
      | none => throw (.notFound "Video not found")
      | some video => do
        if video.teamId ≠ teamId then
          throw (.token (.authentication "Playback token tenant mismatch"))
        requireTeamMember w.user video.teamId
        return ⟨v, ← fromTimestamp exp⟩ : Except Failure VerifyResponse) = .ok response ↔
      (∃ video, w.videos v = some video ∧ video.teamId = teamId) ∧ MayWatch w.user teamId ∧
        exp * 10 ^ 6 ≤ datetimeMax ∧ response = ⟨v, exp * 10 ^ 6⟩ := by
  cases hvideo : w.videos v with
  | none =>
    refine iff_of_false (fun h => by cases h) ?_
    rintro ⟨⟨video, h, -⟩, -⟩
    cases h
  | some video =>
    dsimp only
    split_ifs with hteam
    · refine iff_of_false (fun h => by cases h) ?_
      rintro ⟨⟨video', h, hteam'⟩, -⟩
      exact hteam (Option.some.inj h ▸ hteam')
    · obtain rfl := not_not.mp hteam
      constructor
      · intro h
        obtain ⟨⟨⟩, hmember, h⟩ := Except.exists_of_bind_eq_ok h
        obtain ⟨micros, hmicros, h⟩ := Except.exists_of_bind_eq_ok h
        obtain ⟨hmax, rfl⟩ := (fromTimestamp_eq_ok_iff hpos).mp hmicros
        exact ⟨⟨video, rfl, rfl⟩, requireTeamMember_eq_ok_iff.mp hmember, hmax,
          (Except.ok.inj h).symm⟩
      · rintro ⟨-, hwatch, hmax, rfl⟩
        rw [requireTeamMember_eq_ok_iff.mpr hwatch, (fromTimestamp_eq_ok_iff hpos).mpr ⟨hmax, rfl⟩]
        rfl

/-- What is checked once the token is decoded. -/
theorem verifyPlaybackToken_of_decoded {v : Uuid} {token : List ℕ} {response : VerifyResponse}
    (hne : token ≠ []) (hshort : token.length ≤ maxTokenLength)
    (hkind : r.kind = .playback videoId teamId) (hpos : 0 ≤ exp)
    (h : decodeToken K S.toSettings limit w.now "playback" (some S.playbackTokenAudience) token =
      .ok (decodedClaims S.toSettings r iat exp)) :
    verifyPlaybackToken T K S limit w v token = .ok response ↔
      v = videoId ∧ w.user.id = r.user.id ∧ w.user.sessionVersion = r.user.sessionVersion ∧
        (∃ video, w.videos v = some video ∧ video.teamId = teamId) ∧ MayWatch w.user teamId ∧
        exp * 10 ^ 6 ≤ datetimeMax ∧ response = ⟨v, exp * 10 ^ 6⟩ := by
  obtain ⟨-, hexp, -, hsv, hsub, -⟩ := get_claims S.toSettings r iat exp
  obtain ⟨-, hvid, htid, -⟩ := get_playbackClaims S.toSettings iat exp hkind
  have hexp' : ((decodedClaims S.toSettings r iat exp).get "exp").asInt = some exp := by
    rw [get_decodedClaims, hexp]
    rfl
  have hsv' : ((decodedClaims S.toSettings r iat exp).get "sv").asInt =
      some (r.user.sessionVersion : ℤ) := by
    rw [get_decodedClaims, hsv]
    rfl
  have hbody : ¬ (token = [] ∨ maxTokenLength < token.length) := not_or.mpr ⟨hne, not_lt.mpr hshort⟩
  unfold verifyPlaybackToken
  rw [if_neg hbody, h]
  show (uuidClaim T (decodedClaims S.toSettings r iat exp) "sub" >>= _) = _ ↔ _
  rw [uuidClaim_eq hsub]
  show (uuidClaim T (decodedClaims S.toSettings r iat exp) "vid" >>= _) = _ ↔ _
  rw [uuidClaim_eq hvid]
  show (uuidClaim T (decodedClaims S.toSettings r iat exp) "tid" >>= _) = _ ↔ _
  rw [uuidClaim_eq htid, hsv', hexp']
  refine Except.check_bind_eq_ok_iff.trans ?_
  rw [Except.check_bind_eq_ok_iff, Except.check_bind_eq_ok_iff, not_ne_iff, not_ne_iff, not_ne_iff,
    Option.some_inj, Int.natCast_inj]
  exact and_congr eq_comm (and_congr eq_comm (and_congr eq_comm (watch_eq_ok_iff hpos)))

theorem encodeRs256_ne_nil (K : KeyPair) (claims : Json.Fields ℕ) : encodeRs256 K claims ≠ [] :=
  List.append_ne_nil_of_right_ne_nil _ (List.cons_ne_nil _ _)

/-- A token is accepted only in a body that the schema takes, and only if it can be decoded. -/
theorem exists_decoded_of_verifyPlaybackToken {v : Uuid} {token : List ℕ}
    {response : VerifyResponse}
    (h : verifyPlaybackToken T K S limit w v token = .ok response) :
    token.length ≤ maxTokenLength ∧ ∃ decoded, decodeToken K S.toSettings limit w.now "playback"
      (some S.playbackTokenAudience) token = .ok decoded := by
  unfold verifyPlaybackToken at h
  split_ifs at h with hbody
  · cases h
  refine ⟨not_lt.mp (not_or.mp hbody).2, ?_⟩
  obtain ⟨decoded, hdecoded, -⟩ := Except.exists_of_bind_eq_ok h
  exact ⟨decoded, Except.eq_ok_of_mapError hdecoded⟩

end Claims

/-- **What was granted goes on as long as the video, the session and the membership do**, and is of
no other video. -/
theorem verifyPlaybackToken_of_granted {granted : View} {video : Video} {v : Uuid}
    {claims' : Json.Fields ℕ} {response : VerifyResponse} (hlimit : 2 ≤ limit)
    (hvideo : granted.videos videoId = some video)
    (hclaims : mintedClaims S.toSettings (grantRequest granted videoId video jti) granted.now =
      some claims')
    (hK : K.Seals (signingInput claims'))
    (h : getVideo U K S granted videoId storage jti = .ok (some a)) :
    verifyPlaybackToken T K S limit w v a.token = .ok response ↔
      v = videoId ∧ MayKeepPlaying granted w video.teamId videoId a ∧
        response = ⟨videoId, timestamp a.expiresAt * 10 ^ 6⟩ := by
  obtain ⟨video', st, hvideo', -, hgranted⟩ := getVideo_eq_some_iff.mp h
  obtain rfl : video = video' := Option.some.inj (hvideo.symm.trans hvideo')
  obtain ⟨-, storageKey, -, -, -, hplayed⟩ := hgranted.played
  obtain ⟨hmint, hexpiry⟩ := eq_of_createPlaybackToken hplayed.token
  obtain ⟨rfl, hexp⟩ := eq_of_mintedClaims hclaims
  rw [hexpiry] at hexp hclaims hK
  have hw : JsonText.Writable limit (.obj (claims S.toSettings
      (grantRequest granted videoId video jti) (timestamp granted.now.micros)
      (timestamp a.expiresAt))) :=
    writable_claims _ _ hlimit (abs_timestamp_now_le _) hexp
  rw [mint, hclaims, Option.map_some, Option.some.injEq] at hmint
  have hne : a.token ≠ [] := hmint ▸ encodeRs256_ne_nil _ _
  have hlength : a.token.length = tokenLength K S.toSettings
      (grantRequest granted videoId video jti) (timestamp granted.now.micros)
      (timestamp a.expiresAt) :=
    hmint ▸ length_encodeRs256 K S.toSettings _ hw
  have hdecode (hshort : a.token.length ≤ maxTokenLength)
      (halive : timestamp w.now.micros < timestamp a.expiresAt) :
      decodeToken K S.toSettings limit w.now "playback" (some S.playbackTokenAudience) a.token =
        .ok (decodedClaims S.toSettings (grantRequest granted videoId video jti)
          (timestamp granted.now.micros) (timestamp a.expiresAt)) := by
    rw [← hmint]
    refine decodeToken_minted (r := grantRequest granted videoId video jti) hK hw halive ?_
    exact (hlength ▸ hshort).trans (by decide)
  have hpos (halive : timestamp w.now.micros < timestamp a.expiresAt) : 0 ≤ timestamp a.expiresAt :=
    (le_timestamp (n := 0) w.now.le_max (by omega)).trans halive.le
  constructor
  · intro hok
    obtain ⟨hshort, decoded, hdecoded⟩ := exists_decoded_of_verifyPlaybackToken hok
    have halive : timestamp w.now.micros < timestamp a.expiresAt := by
      rcases decodeRs256_cases w.now (some S.playbackTokenAudience) hK hw with
        ⟨-, hlt, -⟩ | ⟨m, herror⟩
      · exact hlt
      · rw [← hmint, decodeToken_of_jwt herror] at hdecoded
        cases hdecoded
    obtain ⟨rfl, huser, hsession, hvideo, hwatch, hdate, hresponse⟩ :=
      (verifyPlaybackToken_of_decoded hne hshort rfl (hpos halive) (hdecode hshort halive)).mp hok
    exact ⟨rfl, ⟨hshort, huser, hsession, halive, hdate, hvideo, hwatch⟩, hresponse⟩
  · rintro ⟨rfl, hkeep, rfl⟩
    exact (verifyPlaybackToken_of_decoded hne hkeep.short rfl (hpos hkeep.alive)
      (hdecode hkeep.short hkeep.alive)).mpr
        ⟨rfl, hkeep.user, hkeep.session, hkeep.video, hkeep.mayWatch, hkeep.date, rfl⟩

end Requests

/-! ### A coach who watches -/

/-- A video of the first team of a coach. -/
def sampleVideo : Video where
  teamId := .zero
  status := .processed
  storageKeyHls := some "hls".codePoints
  storageKeyMezzanine := some "mezzanine".codePoints
  storageOutputSha256 := none

/-- The manifest of the stream is gone, and the file is there. -/
def sampleStorage : Storage where
  headObject key := .ok (if key = "mezzanine".codePoints then some ⟨some 1000, []⟩ else none)
  presignGet _ _ _ := .ok "url"

def sampleId : Uuid := ⟨5, by decide⟩

def sampleJti : Uuid := ⟨6, by decide⟩

/-- The only video is there, so many seconds after the login. -/
def viewOf (user : User) (seconds : ℕ) (h : seconds < 1000) : View where
  user := user
  videos v := if v = sampleId then some sampleVideo else none
  now := ⟨(1790000000 + seconds) * 10 ^ 6, by unfold datetimeMax; omega⟩

/-- A coach of one team logs in. -/
def loginView : View := viewOf (coachOf 1) 0 (by decide)

/-- The claims of the token of the video. -/
def sampleClaims : Json.Fields ℕ :=
  claims Settings.default (grantRequest loginView sampleId sampleVideo sampleJti) 1790000000
    1790000120

theorem mintedClaims_sample : mintedClaims Settings.default
    (grantRequest loginView sampleId sampleVideo sampleJti) loginView.now = some sampleClaims := by
  have hlater : loginView.now.later ((grantRequest loginView sampleId sampleVideo
      sampleJti).kind.lifetime Settings.default) = some ((1790000120 * 10 ^ 6 : ℕ) : ℤ) := rfl
  have hnow : loginView.now.micros = 1790000000 * 10 ^ 6 := rfl
  rw [mintedClaims, hlater, Option.map_some, hnow, timestamp_of_second (by decide),
    timestamp_of_second (n := 1790000120) (by decide)]
  rfl

/-- The file is played, with a token that names the video and its team. -/
def sampleArtifact : Artifact where
  url := "url"
  token := encodeRs256 (keyOf (signingInput sampleClaims)) sampleClaims
  fmt := "mp4"
  expiresAt := 1790000120 * 10 ^ 6

theorem getVideo_sample : getVideo .ascii (keyOf (signingInput sampleClaims))
    PlaybackSettings.default loginView sampleId (some sampleStorage) sampleJti =
      .ok (some sampleArtifact) := by
  refine getVideo_eq_some_iff.mpr ⟨sampleVideo, sampleStorage, rfl, rfl, .inr rfl, rfl,
    [("hls".codePoints, "hls")], "mezzanine".codePoints, [], rfl, ?_, ⟨_, rfl, rfl⟩, rfl, ?_⟩
  · exact List.forall_mem_singleton.mpr ⟨none, rfl, rfl⟩
  · rw [createPlaybackToken, mint, show mintedClaims PlaybackSettings.default.toSettings _ _ = _
      from mintedClaims_sample]
    rfl

/-- **A logout takes it back.** The coach keeps playing for two minutes, but not in a session that
is newer. -/
theorem exists_verifyPlaybackToken : ∃ (K : KeyPair) (a : Artifact) (loggedOut : User),
    getVideo .ascii K PlaybackSettings.default loginView sampleId (some sampleStorage) sampleJti =
      .ok (some a) ∧
    verifyPlaybackToken .ascii K PlaybackSettings.default 1000 (viewOf (coachOf 1) 119 (by decide))
      sampleId a.token = .ok ⟨sampleId, 1790000120 * 10 ^ 6⟩ ∧
    loggedOut = { coachOf 1 with sessionVersion := 1, sessionVersion_lt := by decide } ∧
    ∀ response, verifyPlaybackToken .ascii K PlaybackSettings.default 1000
      (viewOf loggedOut 119 (by decide)) sampleId a.token ≠ .ok response := by
  have hexp : timestamp sampleArtifact.expiresAt = 1790000120 :=
    timestamp_of_second (n := 1790000120) (by decide)
  have hnow (user : User) : timestamp (viewOf user 119 (by decide)).now.micros = 1790000119 :=
    timestamp_of_second (n := 1790000119) (by decide)
  have hw : JsonText.Writable 1000 (.obj sampleClaims) :=
    writable_claims _ _ (by decide) (by decide) (by decide)
  have hlength : sampleArtifact.token.length ≤ maxTokenLength :=
    (length_encodeRs256 _ _ _ hw).trans_le (by decide)
  have hiff (w : View) (response : VerifyResponse) :
      verifyPlaybackToken .ascii (keyOf (signingInput sampleClaims)) PlaybackSettings.default 1000 w
          sampleId sampleArtifact.token = .ok response ↔
        sampleId = sampleId ∧
          MayKeepPlaying loginView w sampleVideo.teamId sampleId sampleArtifact ∧
          response = ⟨sampleId, timestamp sampleArtifact.expiresAt * 10 ^ 6⟩ :=
    verifyPlaybackToken_of_granted (by decide) rfl mintedClaims_sample (seals_keyOf _)
      getVideo_sample
  refine ⟨keyOf (signingInput sampleClaims), sampleArtifact, _, getVideo_sample, ?_, rfl, ?_⟩
  · refine (hiff ..).mpr ⟨rfl, ⟨hlength, rfl, rfl, ?_, ?_, ⟨sampleVideo, rfl, rfl⟩, .inr rfl⟩, ?_⟩
    · rw [hexp, hnow]
      decide
    · rw [hexp]
      decide
    · rw [hexp]
  · intro response h
    obtain ⟨-, hkeep, -⟩ := (hiff ..).mp h
    exact absurd hkeep.session (by decide)

end NextBallUp.Tokens.Playback
