import NextBallUp.Auth.Rows
import NextBallUp.Lib.Base64
import NextBallUp.Lib.Doubles
import NextBallUp.Lib.JsonBytes
import NextBallUp.Lib.JsonDumps
import NextBallUp.Lib.Uuid
import Mathlib.Data.List.Sort

/-!
# Tokens

`security/jwt.py`, and `_team_ids` and `_issue_tokens` of `routers/auth.py`: what is written into
access, refresh and playback tokens, and what `decode_token` makes of a text. Texts are sequences of
code points, and times are microseconds since 1970.

The signatures are those of a key pair about which nothing is known but how long they are.

## What is deliberately absent

How the keys are loaded. The settings name them, and do not change between minting and decoding.

## Main definitions

* `KeyPair`, `Settings`, `Request`: what a token is minted from
* `mint`: the token, as `create_access_token`, `create_refresh_token` and `create_playback_token`
  return it
* `decodeToken`: `decode_token`
-/

namespace NextBallUp.Tokens

open JsonText (LoadsError)

/-! ### Times -/

/-- `datetime.min` and `datetime.max`, in microseconds since 1970. -/
def datetimeMin : ℤ := -62135596800000000
def datetimeMax : ℤ := 253402300799999999

/-- A time that the clock can show. -/
structure Datetime where
  micros : ℕ
  le_max : (micros : ℤ) ≤ datetimeMax
  deriving DecidableEq, Repr

/-- `int(dt.timestamp())`. The timestamp is a double. -/
def timestamp (micros : ℤ) : ℤ :=
  match Double.ofRat (micros / 10 ^ 6) with
  | .finite q => if 0 ≤ q then ⌊q⌋ else ⌈q⌉
  | _ => 0

/-- `now + timedelta(seconds=…)`; `none` is an `OverflowError`. -/
def Datetime.later (now : Datetime) (seconds : ℤ) : Option ℤ :=
  let t := now.micros + seconds * 10 ^ 6
  if datetimeMin ≤ t ∧ t ≤ datetimeMax then some t else none

/-! ### What a token is minted from -/

/-- The settings of the tokens. -/
structure Settings where
  jwtIssuer : String
  accessTokenExpireMinutes : ℤ
  refreshTokenExpireDays : ℤ
  playbackTokenExpireSeconds : ℤ
  playbackTokenAudience : String

/-- The defaults of `nextballup_core.settings`. -/
def Settings.default : Settings where
  jwtIssuer := "nextballup"
  accessTokenExpireMinutes := 15
  refreshTokenExpireDays := 7
  playbackTokenExpireSeconds := 120
  playbackTokenAudience := "video:playback"

/-- An RSA key, with SHA-256 and the padding of PKCS #1: signing and verifying bytes. -/
structure KeyPair where
  sign : List ℕ → List ℕ
  verify : List ℕ → List ℕ → Bool
  /-- The length of the modulus. -/
  size : ℕ
  size_pos : 0 < size
  length_sign : ∀ message, (sign message).length = size
  lt_of_mem_sign : ∀ message, ∀ b ∈ sign message, b < 256

/-- The signature of a message is the signature of no other one. -/
def KeyPair.Seals (K : KeyPair) (message : List ℕ) : Prop :=
  ∀ message', K.verify (K.sign message) message' = true ↔ message' = message

/-- `UserRole`, as it is written. -/
def roleValue : Auth.UserRole → String
  | .coach => "coach"
  | .player => "player"
  | .admin => "admin"

/-- A row of `team_memberships` with its team. -/
structure TeamMembership where
  teamId : Uuid
  isActive : Bool
  /-- `team.deleted_at is None`; `none` if there is no team. -/
  teamIsLive : Option Bool

/-- A user. -/
structure User where
  id : Uuid
  role : Auth.UserRole
  sessionVersion : ℕ
  teamMemberships : List TeamMembership
  /-- The column is an `Integer`. -/
  sessionVersion_lt : sessionVersion < 2 ^ 31

/-- `_team_ids` -/
def teamIds (user : User) : List Uuid :=
  (user.teamMemberships.filter fun m => m.isActive && m.teamIsLive = some true).map
    TeamMembership.teamId

/-- The three kinds of tokens, and what only they hold. -/
inductive Kind
  | access (teamIds : List Uuid)
  | refresh (teamIds : List Uuid)
  | playback (videoId teamId : Uuid)

/-- What a token is minted from, beside the settings and the time. -/
structure Request where
  user : User
  /-- A fresh `uuid4`. -/
  jti : Uuid
  kind : Kind

/-- `token_type` -/
def Kind.type : Kind → String
  | .access _ => "access"
  | .refresh _ => "refresh"
  | .playback .. => "playback"

/-- The `audience` with which a token of the kind is decoded. -/
def Kind.audience (S : Settings) : Kind → Option String
  | .playback .. => some S.playbackTokenAudience
  | _ => none

/-- How long a token of the kind lives, in seconds. -/
def Kind.lifetime (S : Settings) : Kind → ℤ
  | .access _ => S.accessTokenExpireMinutes * 60
  | .refresh _ => S.refreshTokenExpireDays * 86400
  | .playback .. => S.playbackTokenExpireSeconds

/-! ### Encoding -/

def text (s : String) : Json ℕ := .str s.codePoints

/-- A member of a `dict`. -/
def field (key : String) (value : Json ℕ) : List ℕ × Json ℕ := (key.codePoints, value)

/-- `_build_claims` -/
def buildClaims (S : Settings) (r : Request) (teamIds : List Uuid) (iat exp : ℤ) : Json.Fields ℕ :=
  [field "sub" (.str r.user.id.str),
    field "role" (text (roleValue r.user.role)),
    field "team_ids" (.arr (teamIds.map fun t => .str t.str)),
    field "sv" (.int r.user.sessionVersion),
    field "type" (text r.kind.type),
    field "iss" (text S.jwtIssuer),
    field "iat" (.int iat),
    field "exp" (.int exp),
    field "jti" (.str r.jti.str)]

/-- The claims of `create_playback_token`. -/
def playbackClaims (S : Settings) (r : Request) (videoId teamId : Uuid) (iat exp : ℤ) :
    Json.Fields ℕ :=
  [field "sub" (.str r.user.id.str),
    field "role" (text (roleValue r.user.role)),
    field "sv" (.int r.user.sessionVersion),
    field "type" (text r.kind.type),
    field "aud" (text S.playbackTokenAudience),
    field "vid" (.str videoId.str),
    field "tid" (.str teamId.str),
    field "iss" (text S.jwtIssuer),
    field "iat" (.int iat),
    field "exp" (.int exp),
    field "jti" (.str r.jti.str)]

/-- The claims of a token. -/
def claims (S : Settings) (r : Request) (iat exp : ℤ) : Json.Fields ℕ :=
  match r.kind with
  | .access teamIds | .refresh teamIds => buildClaims S r teamIds iat exp
  | .playback videoId teamId => playbackClaims S r videoId teamId iat exp

/-- `_b64url_encode` -/
def b64urlEncode (raw : List ℕ) : List ℕ := Base64.urlEncode raw

/-- `sort_keys=True`. No member of the objects here holds an object. -/
def sortKeys (fields : Json.Fields ℕ) : Json.Fields ℕ :=
  fields.insertionSort fun f g => f.1 ≤ g.1

/-- `_json_b64url_encode` -/
def jsonB64urlEncode (fields : Json.Fields ℕ) : List ℕ :=
  b64urlEncode (JsonText.dumps (.obj (sortKeys fields)))

/-- `jwt_algorithm` -/
def jwtAlgorithm : String := "RS256"

def header : Json.Fields ℕ := [field "alg" (text jwtAlgorithm), field "typ" (text "JWT")]

def signingInput (claims : Json.Fields ℕ) : List ℕ :=
  jsonB64urlEncode header ++ 46 :: jsonB64urlEncode claims

/-- A signing input with a signature. -/
def withSignature (input signature : List ℕ) : List ℕ := input ++ 46 :: b64urlEncode signature

/-- `_encode_rs256` -/
def encodeRs256 (K : KeyPair) (claims : Json.Fields ℕ) : List ℕ :=
  withSignature (signingInput claims) (K.sign (signingInput claims))

/-- The claims of the token that is minted now; `none` if its expiry is no date any more. -/
def mintedClaims (S : Settings) (r : Request) (now : Datetime) : Option (Json.Fields ℕ) :=
  (now.later (r.kind.lifetime S)).map fun t => claims S r (timestamp now.micros) (timestamp t)

/-- `create_access_token`, `create_refresh_token` and `create_playback_token` -/
def mint (K : KeyPair) (S : Settings) (r : Request) (now : Datetime) : Option (List ℕ) :=
  (mintedClaims S r now).map (encodeRs256 K)

/-- `_issue_tokens`, the access and the refresh token, each with its own reading of the clock. -/
def issueTokens (K : KeyPair) (S : Settings) (user : User) (teams : Option (List Uuid))
    (accessJti refreshJti : Uuid) (now now' : Datetime) : Option (List ℕ × List ℕ) := do
  let resolvedTeamIds := teams.getD (teamIds user)
  let accessToken ← mint K S ⟨user, accessJti, .access resolvedTeamIds⟩ now
  let refreshToken ← mint K S ⟨user, refreshJti, .refresh resolvedTeamIds⟩ now'
  return (accessToken, refreshToken)

/-! ### Decoding -/

/-- What decoding raises. -/
inductive Failure
  /-- `_JwtDecodeError`, which `decode_token` turns into an `AuthenticationError`. -/
  | jwt (message : String)
  /-- An exception of `json.loads`. Only a `JSONDecodeError` and a `UnicodeDecodeError` are caught.
  -/
  | json (e : LoadsError)
  /-- A `UnicodeEncodeError`. -/
  | unicode
  | authentication (message : String)
  deriving DecidableEq, Repr

/-- A decoded object. -/
abbrev Claims := Json.Fields CodePoint

/-- `_MAX_JWT_BYTES` -/
def maxJwtBytes : ℕ := 8192

/-- `len(text.encode("utf-8"))`; `none` is a `UnicodeEncodeError`. -/
def utf8Length : List ℕ → Option ℕ
  | [] => some 0
  | c :: rest =>
    if 0xD800 ≤ c ∧ c < 0xE000 then none
    else (utf8Length rest).map
      (· + if c < 0x80 then 1 else if c < 0x800 then 2 else if c < 0x10000 then 3 else 4)

/-- `_B64URL_CHARS` -/
def isB64urlChar (c : ℕ) : Bool :=
  (65 ≤ c && c ≤ 90) || (97 ≤ c && c ≤ 122) || (48 ≤ c && c ≤ 57) || c = 45 || c = 95

/-- `_b64url_decode` -/
def b64urlDecode (value : List ℕ) : Except Failure (List ℕ) :=
  if value = [] ∨ ∃ c ∈ value, isB64urlChar c = false then .error (.jwt "Malformed token segment")
  else
    match Base64.decode (Base64.pad value) with
    | none => .error (.jwt "Malformed token segment")
    | some bytes => .ok bytes

/-- `_json_b64url_decode` -/
def jsonB64urlDecode (limit : ℕ) (value : List ℕ) : Except Failure Claims := do
  match JsonText.loadsBytes limit (← b64urlDecode value) with
  | .error e => throw (.json e)
  | .ok (.obj fields) => return fields
  | .ok _ => throw (.jwt "Malformed token JSON")

/-- `dict.get(key, default)` -/
def getD (fields : Claims) (key : String) (default : Json CodePoint) : Json CodePoint :=
  match fields.find? fun f => codes f.1 = key.codePoints with
  | some f => f.2
  | none => default

/-- `isinstance(value, str)` -/
def isStr (value : Json CodePoint) : Bool := value.asStr.isSome

/-- `isinstance(value, int)` -/
def isInt (value : Json CodePoint) : Bool := value.asInt.isSome

/-- The audience of the token is the one asked for, or one of those it names is. -/
def audienceMatches (tokenAudience : Json CodePoint) (audience : String) : Bool :=
  match tokenAudience with
  | .arr items => items.all isStr && items.any fun item => item.isText audience
  | value => value.isText audience

/-- `_validate_registered_claims` -/
def validateRegisteredClaims (S : Settings) (now : Datetime) (audience : Option String)
    (claims : Claims) : Except Failure Unit := do
  if !(claims.get "iss").isText S.jwtIssuer then throw (.jwt "Invalid token issuer")
  match (claims.get "exp").asInt with
  | none => throw (.jwt "Malformed token expiry")
  | some exp =>
    if exp ≤ timestamp now.micros then throw (.jwt "Expired token")
    match audience with
    | none => return
    | some audience =>
      if !audienceMatches (claims.get "aud") audience then throw (.jwt "Invalid token audience")

/-- `_decode_rs256` -/
def decodeRs256 (K : KeyPair) (S : Settings) (limit : ℕ) (now : Datetime)
    (audience : Option String) (token : List ℕ) : Except Failure Claims := do
  match utf8Length token with
  | none => throw .unicode
  | some n => if maxJwtBytes < n then throw (.jwt "Token too large")
  match token.splitOn 46 with
  | [headerSegment, payloadSegment, signatureSegment] =>
    let header ← jsonB64urlDecode limit headerSegment
    let claims ← jsonB64urlDecode limit payloadSegment
    if !(header.get "alg").isText jwtAlgorithm then throw (.jwt "Unexpected token algorithm")
    if !(getD header "typ" (.str ("JWT".codePoints.map JsonText.mark))).isText "JWT" then
      throw (.jwt "Unexpected token type")
    let signature ← b64urlDecode signatureSegment
    if !K.verify signature (headerSegment ++ 46 :: payloadSegment) then
      throw (.jwt "Invalid token signature")
    validateRegisteredClaims S now audience claims
    return claims
  | _ => throw (.jwt "Malformed token")

/-- `decode_token` -/
def decodeToken (K : KeyPair) (S : Settings) (limit : ℕ) (now : Datetime) (expectedType : String)
    (audience : Option String) (token : List ℕ) : Except Failure Claims := do
  let decoded ← tryCatch (decodeRs256 K S limit now audience token) fun
    | .jwt _ => throw (.authentication "Invalid or expired token")
    | e => throw e
  if !(decoded.get "type").isText expectedType then throw (.authentication "Wrong token type")
  if !isStr (decoded.get "sub") then throw (.authentication "Malformed token subject")
  if !isStr (decoded.get "jti") then throw (.authentication "Malformed token id")
  if !isInt (decoded.get "iat") then throw (.authentication "Malformed token issue time")
  if !isInt (decoded.get "sv") then throw (.authentication "Malformed session version")
  if expectedType = "playback" then
    if !isStr (decoded.get "vid") then throw (.authentication "Malformed playback subject")
    if !isStr (decoded.get "tid") then throw (.authentication "Malformed playback tenant")
    if !isStr (decoded.get "role") then throw (.authentication "Malformed playback role")
  return decoded

end NextBallUp.Tokens
