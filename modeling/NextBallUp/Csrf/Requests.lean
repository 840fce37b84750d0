import NextBallUp.Lib.Base64
import NextBallUp.Lib.JsStrings
import NextBallUp.Lib.Json
import NextBallUp.Lib.Numerals

/-!
# Double-submit tokens

`security/csrf.py` and `middleware/csrf.py`, and `readCsrfCookie` and the headers of `apiFetch` of
the web client. Cookies, headers and tokens are sequences of code points, and times are whole
seconds, as `int(time.time())` gives them.

HMAC-SHA256 under the secret of the server is a function of which nothing is known here but how long
its results are.

## What is deliberately absent

The bodies of requests and responses, and the second request of `apiFetch` after a session has been
refreshed, which is made like the first.

## Main definitions

* `generateCsrfToken`, `verifyCsrfToken`: the tokens
* `dispatch`: `CsrfMiddleware.dispatch`
* `readCsrfCookie`, `csrfHeader`: what the browser sends
-/

namespace NextBallUp.Csrf

/-! ### Tokens -/

/-- The settings of the tokens. -/
structure Settings where
  cookieAccessName : String
  cookieCsrfName : String
  cookieSecure : Bool
  cookieHostPrefix : Bool
  csrfTokenTtlSeconds : ℤ
  csrfProtectedMethods : List String
  csrfExemptPaths : List String

/-- The defaults of `nextballup_core.settings`. -/
def Settings.default : Settings where
  cookieAccessName := "nbu_access_token"
  cookieCsrfName := "nbu_csrf_token"
  cookieSecure := false
  cookieHostPrefix := false
  csrfTokenTtlSeconds := 86400
  csrfProtectedMethods := ["POST", "PUT", "PATCH", "DELETE"]
  csrfExemptPaths := ["/api/v1/auth/login", "/api/v1/auth/register", "/api/v1/auth/refresh",
    "/api/v1/auth/password/forgot", "/api/v1/auth/password/reset", "/api/v1/_csp-report",
    "/api/v1/pilot-interest"]

/-- HMAC-SHA256 under the secret of the server. -/
structure Mac where
  digest : List ℕ → List ℕ
  length_digest : ∀ message, (digest message).length = 32
  lt_of_mem_digest : ∀ message, ∀ b ∈ digest message, b < 256

/-- A clock, in seconds. -/
structure Clock where
  seconds : ℕ
  seconds_lt : seconds < 2 ^ 63

/-- `_NONCE_BYTES` -/
def nonceBytes : ℕ := 16

/-- What `secrets.token_bytes` returns. -/
structure Nonce where
  bytes : List ℕ
  length_bytes : bytes.length = nonceBytes
  lt_of_mem : ∀ b ∈ bytes, b < 256

/-- `_b64url_encode` -/
def b64urlEncode (data : List ℕ) : List ℕ := Base64.urlEncode data

/-- `_b64url_decode`; `none` is a `ValueError`. -/
def b64urlDecode (value : List ℕ) : Option (List ℕ) := Base64.decode (Base64.pad value)

/-- `nonce + issued_at.to_bytes(8, "big")`; `none` is an `OverflowError`. -/
def payload (nonce : List ℕ) (issuedAt : ℤ) : Option (List ℕ) :=
  if 0 ≤ issuedAt ∧ issuedAt < 2 ^ 64 then some (nonce ++ bigEndian 8 issuedAt.toNat) else none

/-- `_sign` -/
def sign (M : Mac) (nonce : List ℕ) (issuedAt : ℤ) : Option (List ℕ) :=
  (payload nonce issuedAt).map M.digest

/-- `generate_csrf_token`, with the nonce that it draws and the time that it reads. -/
def generateCsrfToken (M : Mac) (nonce : Nonce) (issuedAt : Clock) : List ℕ :=
  b64urlEncode nonce.bytes ++
    46 :: (b64urlEncode (M.digest (nonce.bytes ++ bigEndian 8 issuedAt.seconds)) ++
      46 :: decimal issuedAt.seconds)

/-- The nonce, the signature and the issue time of a token; `none` if it has not three parts, or if
one of them cannot be decoded. -/
def tokenParts (T : DigitTable) (token : List ℕ) : Option (List ℕ × List ℕ × ℤ) :=
  match token.splitOn 46 with
  | [nonceB64, sigB64, issuedAtRaw] => do
    let nonce ← b64urlDecode nonceB64
    let providedSig ← b64urlDecode sigB64
    let issuedAt ← T.readInt issuedAtRaw
    return (nonce, providedSig, issuedAt)
  | _ => none

/-- What `verify_csrf_token` raises. -/
inductive Raised
  | overflowError
  deriving DecidableEq, Repr

/-- `verify_csrf_token` -/
def verifyCsrfToken (T : DigitTable) (M : Mac) (S : Settings) (now : Clock) (token : List ℕ) :
    Except Raised Bool :=
  match tokenParts T token with
  | none => .ok false
  | some (nonce, providedSig, issuedAt) =>
    if nonce.length ≠ nonceBytes then .ok false
    else
      let age := (now.seconds : ℤ) - issuedAt
      if age < 0 ∨ S.csrfTokenTtlSeconds < age then .ok false
      else
        match sign M nonce issuedAt with
        | none => .error .overflowError
        | some expected => .ok (expected = providedSig)

/-! ### The middleware -/

/-- What a request brings to the middleware. -/
structure Request where
  method : String
  path : String
  /-- `request.cookies.get` -/
  cookie : String → Option (List ℕ)
  /-- `request.headers.get(CSRF_HEADER)` -/
  csrfHeader : Option (List ℕ)

/-- `f"__Host-{name}"` -/
def hostPrefixed (name : String) : String := "__Host-" ++ name

/-- `bool(value)` -/
def isPresent (value : Option (List ℕ)) : Bool :=
  match value with
  | some text => text ≠ []
  | none => false

/-- `value or other` -/
def orElse (value other : Option (List ℕ)) : Option (List ℕ) :=
  if isPresent value then value else other

/-- The names of the cookie, that which the setting prefers first. -/
def csrfCookieNames (S : Settings) : String × String :=
  if S.cookieHostPrefix && S.cookieSecure then (hostPrefixed S.cookieCsrfName, S.cookieCsrfName)
  else (S.cookieCsrfName, hostPrefixed S.cookieCsrfName)

/-- `extract_csrf_cookie` -/
def extractCsrfCookie (S : Settings) (request : Request) : Option (List ℕ) :=
  orElse (request.cookie (csrfCookieNames S).1) (request.cookie (csrfCookieNames S).2)

/-- `request_is_cookie_authenticated` -/
def requestIsCookieAuthenticated (S : Settings) (request : Request) : Bool :=
  isPresent (orElse (request.cookie S.cookieAccessName)
    (request.cookie (hostPrefixed S.cookieAccessName)))

/-- `path_is_csrf_exempt` -/
def pathIsCsrfExempt (S : Settings) (path : String) : Bool :=
  S.csrfExemptPaths.any fun exempt => path = exempt || exempt.toList.isPrefixOf path.toList

/-- `method.upper()`. Methods are ASCII. -/
def upper (method : String) : List Char := method.toList.map Char.toUpper

/-- The method is one of those for which the token is checked. -/
def isProtected (S : Settings) (method : String) : Bool :=
  (S.csrfProtectedMethods.map upper).contains (upper method)

/-- What the middleware does with a request. -/
inductive Outcome
  /-- `call_next` -/
  | passed
  | rejected (reason : String)
  | raised (e : Raised)
  deriving DecidableEq, Repr

/-- `CsrfMiddleware.dispatch` -/
def dispatch (T : DigitTable) (M : Mac) (S : Settings) (now : Clock) (request : Request) :
    Outcome :=
  if !isProtected S request.method then .passed
  else if pathIsCsrfExempt S request.path then .passed
  else if !requestIsCookieAuthenticated S request then .passed
  else
    match extractCsrfCookie S request, request.csrfHeader with
    | some cookieToken, some headerToken =>
      if cookieToken = [] ∨ headerToken = [] then .rejected "missing_token"
      else if cookieToken ≠ headerToken then .rejected "token_mismatch"
      else
        match verifyCsrfToken T M S now cookieToken with
        | .error e => .raised e
        | .ok false => .rejected "invalid_token"
        | .ok true => .passed
    | _, _ => .rejected "missing_token"

/-! ### The web client -/

/-- `CSRF_COOKIE_NAMES` -/
def csrfCookieNamesOfClient : List String := ["__Host-nbu_csrf_token", "nbu_csrf_token"]

/-- `MUTATING_METHODS` -/
def mutatingMethods : List String := ["POST", "PUT", "PATCH", "DELETE"]

/-- `MUTATING_METHODS.has(method.toUpperCase())` -/
def isMutating (method : String) : Bool :=
  (mutatingMethods.map String.toList).contains (upper method)

/-- `PUBLIC_API_BASE` -/
def publicApiBase : String := "/api/v1"

/-- The loop of `readCsrfCookie`, over the chunks that are left. The first result is `none` if
`decodeURIComponent` throws. -/
def readChunks : List (List ℕ) → Option (Option (List ℕ))
  | [] => some none
  | chunk :: chunks =>
    match (Js.trim chunk).splitOn 61 with
    | rawName :: part :: rest =>
      if rawName ≠ [] ∧ ∃ name ∈ csrfCookieNamesOfClient, name.codePoints = rawName then
        let value := [61].intercalate (part :: rest)
        if value ≠ [] then (Js.decodeURIComponent value).map some else readChunks chunks
      else readChunks chunks
    | _ => readChunks chunks

/-- `readCsrfCookie`, in a document with these cookies. -/
def readCsrfCookie (documentCookie : List ℕ) : Option (Option (List ℕ)) :=
  if documentCookie = [] then some none else readChunks (documentCookie.splitOn 59)

/-- The header that `apiFetch` sends if its caller gives none; the outer `none` is an exception. -/
def csrfHeader (method : String) (documentCookie : List ℕ) : Option (Option (List ℕ)) :=
  if isMutating method then
    (readCsrfCookie documentCookie).map fun csrf => if isPresent csrf then csrf else none
  else some none

/-! ### Cookie jars -/

/-- A cookie that the browser sends with requests to the API. Names and values are such as can be
told apart in a list of cookies. -/
structure Cookie where
  name : String
  value : List ℕ
  httpOnly : Bool
  name_ne : name.codePoints ≠ []
  name_ok : 59 ∉ name.codePoints ∧ 61 ∉ name.codePoints
  name_head : ∀ c ∈ name.codePoints.head?, Js.isSpace c = false
  value_ok : 59 ∉ value

/-- A cookie in a list of cookies. -/
def Cookie.text (cookie : Cookie) : List ℕ := cookie.name.codePoints ++ 61 :: cookie.value

/-- `document.cookie` -/
def documentCookie (jar : List Cookie) : List ℕ :=
  [59, 32].intercalate ((jar.filter fun cookie => !cookie.httpOnly).map Cookie.text)

/-- The request that `apiFetch(path, {method})` makes with the cookies of the jar. The cookies of
the tokens arrive as they are. -/
structure IsSent (S : Settings) (jar : List Cookie) (request : Request) : Prop where
  mutating : isMutating request.method = true
  path : ∃ path, request.path = publicApiBase ++ path
  cookie : ∀ name, name = S.cookieCsrfName ∨ name = hostPrefixed S.cookieCsrfName →
    request.cookie name = (jar.find? fun cookie => cookie.name = name).map Cookie.value
  header : csrfHeader request.method (documentCookie jar) = some request.csrfHeader

end NextBallUp.Csrf
