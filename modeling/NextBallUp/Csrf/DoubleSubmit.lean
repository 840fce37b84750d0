import Mathlib.Data.List.Find
import NextBallUp.Csrf.Client

/-!
# Double submit

A request that the middleware lets through brings a token of the server twice. The converse holds of
the requests of the web client only if client and server mean the same cookie: the client takes the
first one in the document, and the server the one with the name that its settings ask for.

Signatures cannot be forged: a signature in a request is that of a token of the server.

## Main definitions

* `DoubleSubmit`: what is expected of the middleware
* `AgreesWithServer`: the first cookie that the client takes for the token has the value of the one
  that the server prefers

## Main results

* `forall_verifyCsrfToken_iff`: the tokens can all be checked if and only if they do not live longer
  than the epoch has lasted
* `dispatch_isSent_iff`: which requests of the client are let through
* `doubleSubmit_iff`: **the middleware does what is expected of it if and only if both hold**
* `exists_not_doubleSubmit`: a session that lives across a change of the settings
-/

namespace NextBallUp.Csrf

variable {T : DigitTable} {M : Mac} {S : Settings} {now : Clock} {token : List ℕ}

/-! ### Checking tokens -/

theorem verifyCsrfToken_generateCsrfToken {nonce : Nonce} {issuedAt : Clock}
    (hle : issuedAt.seconds ≤ now.seconds)
    (httl : (now.seconds : ℤ) ≤ issuedAt.seconds + S.csrfTokenTtlSeconds) :
    verifyCsrfToken T M S now (generateCsrfToken M nonce issuedAt) = .ok true := by
  have hlt := issuedAt.seconds_lt
  have hsign : sign M nonce.bytes issuedAt.seconds =
      some (M.digest (nonce.bytes ++ bigEndian 8 issuedAt.seconds)) := by
    rw [sign, payload, if_pos (by omega)]
    rfl
  rw [verifyCsrfToken, tokenParts_generateCsrfToken]
  dsimp only
  rw [if_neg (not_not.mpr nonce.length_bytes), if_neg (by omega), hsign]
  exact congrArg Except.ok (decide_eq_true rfl)

/-- What a token that is accepted consists of. -/
theorem parts_of_verifyCsrfToken (h : verifyCsrfToken T M S now token = .ok true) :
    ∃ nonce issuedAt message, tokenParts T token = some (nonce, M.digest message, issuedAt) ∧
      payload nonce issuedAt = some message ∧ nonce.length = nonceBytes ∧
      issuedAt ≤ now.seconds ∧ (now.seconds : ℤ) ≤ issuedAt + S.csrfTokenTtlSeconds := by
  unfold verifyCsrfToken at h
  cases hp : tokenParts T token with
  | none =>
    rw [hp] at h
    cases h
  | some parts =>
    obtain ⟨nonce, providedSig, issuedAt⟩ := parts
    rw [hp] at h
    dsimp only at h
    split_ifs at h with hlength hage
    · cases h
    · cases h
    cases hm : payload nonce issuedAt with
    | none =>
      have hsign : sign M nonce issuedAt = none := by
        rw [sign, hm]
        rfl
      rw [hsign] at h
      cases h
    | some message =>
      have hsign : sign M nonce issuedAt = some (M.digest message) := by
        rw [sign, hm]
        rfl
      rw [hsign] at h
      have hsig : M.digest message = providedSig :=
        of_decide_eq_true (Except.ok.inj h)
      exact ⟨nonce, issuedAt, message, by rw [hsig], hm, not_not.mp hlength, by omega, by omega⟩

/-- A token that was issued before the epoch. -/
def tokenBeforeEpoch : List ℕ := b64urlEncode (List.replicate 16 0) ++ 46 :: 46 :: [45, 49]

theorem tokenParts_tokenBeforeEpoch :
    tokenParts T tokenBeforeEpoch = some (List.replicate 16 0, [], -1) := by
  have hread : T.readInt [45, 49] = some (-1) := rfl
  have hsplit : tokenBeforeEpoch.splitOn 46 =
      [b64urlEncode (List.replicate 16 0), [], [45, 49]] := by
    decide
  have hnonce : b64urlDecode (b64urlEncode (List.replicate 16 0)) = some (List.replicate 16 0) :=
    b64urlDecode_encode fun b hb => by
      rw [List.eq_of_mem_replicate hb]
      decide
  rw [tokenParts, hsplit]
  show (do
    let nonce ← b64urlDecode (b64urlEncode (List.replicate 16 0))
    let providedSig ← b64urlDecode []
    let issuedAt ← T.readInt [45, 49]
    return (nonce, providedSig, issuedAt) : Option (List ℕ × List ℕ × ℤ)) = _
  rw [hnonce, hread]
  rfl

/-- **Every token can be checked** if and only if no token lives longer than the epoch has lasted.
-/
theorem forall_verifyCsrfToken_iff : (∀ token, ∃ b, verifyCsrfToken T M S now token = .ok b) ↔
    S.csrfTokenTtlSeconds ≤ now.seconds := by
  constructor
  · intro h
    by_contra hlt
    obtain ⟨b, hb⟩ := h tokenBeforeEpoch
    have hsign : sign M (List.replicate 16 0) (-1) = none := rfl
    have hlength : (List.replicate 16 0 : List ℕ).length = nonceBytes := List.length_replicate
    rw [verifyCsrfToken, tokenParts_tokenBeforeEpoch] at hb
    dsimp only at hb
    rw [if_neg (not_not.mpr hlength), if_neg (by omega), hsign] at hb
    cases hb
  · intro h token
    unfold verifyCsrfToken
    cases tokenParts T token with
    | none => exact ⟨_, rfl⟩
    | some parts =>
      obtain ⟨nonce, providedSig, issuedAt⟩ := parts
      dsimp only
      split_ifs with hlength hage
      · exact ⟨_, rfl⟩
      · exact ⟨_, rfl⟩
      · have hlt := now.seconds_lt
        rw [sign, payload, if_pos (by omega)]
        exact ⟨_, rfl⟩

/-! ### Requests that are let through -/

/-- A token that was issued so long ago that it is still valid. -/
def IsFresh (S : Settings) (now issuedAt : Clock) : Prop :=
  issuedAt.seconds ≤ now.seconds ∧ (now.seconds : ℤ) ≤ issuedAt.seconds + S.csrfTokenTtlSeconds

/-- The signature in a text is not that of a message, unless the message is that of a token of the
server. -/
def IsUnforged (T : DigitTable) (M : Mac) (issued : List (Nonce × Clock)) (token : List ℕ) : Prop :=
  ∀ nonce issuedAt message, tokenParts T token = some (nonce, M.digest message, issuedAt) →
    payload nonce issuedAt = some message →
      ∃ p ∈ issued, message = p.1.bytes ++ bigEndian 8 p.2.seconds

/-- A request that has to bring a token. -/
structure IsChecked (S : Settings) (request : Request) : Prop where
  isProtected : isProtected S request.method = true
  not_exempt : pathIsCsrfExempt S request.path = false
  authenticated : requestIsCookieAuthenticated S request = true

theorem dispatch_eq {request : Request} (h : IsChecked S request) :
    dispatch T M S now request =
      match extractCsrfCookie S request, request.csrfHeader with
      | some cookieToken, some headerToken =>
        if cookieToken = [] ∨ headerToken = [] then .rejected "missing_token"
        else if cookieToken ≠ headerToken then .rejected "token_mismatch"
        else
          match verifyCsrfToken T M S now cookieToken with
          | .error e => .raised e
          | .ok false => .rejected "invalid_token"
          | .ok true => .passed
      | _, _ => .rejected "missing_token" := by
  rw [dispatch, h.isProtected, h.not_exempt, h.authenticated]
  rfl

/-- **A request is let through if it brings a valid token twice.** -/
theorem dispatch_eq_passed_iff {request : Request} (h : IsChecked S request) :
    dispatch T M S now request = .passed ↔ ∃ token, token ≠ [] ∧
      extractCsrfCookie S request = some token ∧ request.csrfHeader = some token ∧
      verifyCsrfToken T M S now token = .ok true := by
  rw [dispatch_eq h]
  constructor
  · intro hp
    split at hp
    next cookieToken headerToken hcookie hheader =>
      split_ifs at hp with hempty hne
      split at hp
      next => cases hp
      next => cases hp
      next hv =>
        have heq := not_not.mp hne
        exact ⟨cookieToken, (not_or.mp hempty).1, hcookie, by rw [hheader, heq], hv⟩
    next => cases hp
  · rintro ⟨token, hne, hcookie, hheader, hv⟩
    rw [hcookie, hheader]
    dsimp only
    rw [if_neg (by simp [hne]), if_neg (not_not.mpr rfl), hv]

theorem eq_of_payload {nonce : List ℕ} {issuedAt : ℤ} {message : List ℕ} {p : Nonce × Clock}
    (h : payload nonce issuedAt = some message) (hlength : nonce.length = nonceBytes)
    (hp : message = p.1.bytes ++ bigEndian 8 p.2.seconds) :
    nonce = p.1.bytes ∧ issuedAt = p.2.seconds := by
  unfold payload at h
  split_ifs at h with hrange
  have hm := (Option.some.inj h).trans hp
  obtain ⟨hnonce, htime⟩ := List.append_inj hm (hlength.trans p.1.length_bytes.symm)
  have hlt := p.2.seconds_lt
  have hseconds := bigEndian_inj (by omega) (by omega) htime
  exact ⟨hnonce, by omega⟩

/-! ### Cookie jars -/

/-- The names under which client or server look for the token. -/
def IsCsrfName (S : Settings) (name : String) : Prop :=
  name = S.cookieCsrfName ∨ name = hostPrefixed S.cookieCsrfName ∨ name ∈ csrfCookieNamesOfClient

/-- What the jar has under these names are valid tokens of the server, as the server sets them. -/
structure IsHonest (M : Mac) (S : Settings) (now : Clock) (jar : List Cookie) : Prop where
  unique : ∀ cookie ∈ jar, ∀ other ∈ jar, IsCsrfName S cookie.name → other.name = cookie.name →
    other = cookie
  minted : ∀ cookie ∈ jar, IsCsrfName S cookie.name → cookie.httpOnly = false ∧
    ∃ nonce issuedAt, IsFresh S now issuedAt ∧ cookie.value = generateCsrfToken M nonce issuedAt
  present : ∃ cookie ∈ jar, cookie.name = S.cookieCsrfName ∨
    cookie.name = hostPrefixed S.cookieCsrfName

/-- The cookie whose name the settings ask for, or the other one if that is missing. -/
def IsPreferred (S : Settings) (jar : List Cookie) (cookie : Cookie) : Prop :=
  cookie ∈ jar ∧ (cookie.name = (csrfCookieNames S).1 ∨
    cookie.name = (csrfCookieNames S).2 ∧ ∀ other ∈ jar, other.name ≠ (csrfCookieNames S).1)

/-- The first cookie that the client takes for the token has the value of the one that the server
prefers. -/
def AgreesWithServer (S : Settings) (jar : List Cookie) : Prop :=
  ∃ before cookie after preferred, jar = before ++ cookie :: after ∧ cookie.IsOfClient ∧
    (∀ other ∈ before, ¬ other.IsOfClient) ∧ IsPreferred S jar preferred ∧
    preferred.value = cookie.value

section Jars

variable {jar : List Cookie} {request : Request} {cookie : Cookie}

theorem IsHonest.find?_name (h : IsHonest M S now jar) (hmem : cookie ∈ jar)
    (hname : IsCsrfName S cookie.name) :
    (jar.find? fun other => other.name = cookie.name) = some cookie := by
  cases hfind : jar.find? fun other => other.name = cookie.name with
  | none => exact (List.find?_eq_none.mp hfind cookie hmem (decide_eq_true rfl)).elim
  | some other =>
    have hother : other.name = cookie.name := by simpa using List.find?_some hfind
    rw [h.unique cookie hmem other (List.mem_of_find?_eq_some hfind) hname hother]

theorem IsHonest.isPlain (h : IsHonest M S now jar) (hmem : cookie ∈ jar)
    (hname : IsCsrfName S cookie.name) : IsPlain cookie.value := by
  obtain ⟨-, nonce, issuedAt, -, hvalue⟩ := h.minted cookie hmem hname
  rw [hvalue]
  exact isPlain_generateCsrfToken

theorem isPresent_some {value : List ℕ} (h : value ≠ []) : isPresent (some value) = true :=
  decide_eq_true h

theorem csrfCookieNames_cases (S : Settings) :
    ((csrfCookieNames S).1 = S.cookieCsrfName ∧
        (csrfCookieNames S).2 = hostPrefixed S.cookieCsrfName) ∨
      (csrfCookieNames S).1 = hostPrefixed S.cookieCsrfName ∧
        (csrfCookieNames S).2 = S.cookieCsrfName := by
  unfold csrfCookieNames
  split
  · exact .inr ⟨rfl, rfl⟩
  · exact .inl ⟨rfl, rfl⟩

theorem cookie_preferred_names (h : IsSent S jar request) :
    (request.cookie (csrfCookieNames S).1 =
        (jar.find? fun cookie => cookie.name = (csrfCookieNames S).1).map Cookie.value) ∧
      request.cookie (csrfCookieNames S).2 =
        (jar.find? fun cookie => cookie.name = (csrfCookieNames S).2).map Cookie.value := by
  rcases csrfCookieNames_cases S with ⟨h₁, h₂⟩ | ⟨h₁, h₂⟩
  · exact ⟨h.cookie _ (.inl h₁), h.cookie _ (.inr h₂)⟩
  · exact ⟨h.cookie _ (.inr h₁), h.cookie _ (.inl h₂)⟩

theorem IsPreferred.isCsrfName (h : IsPreferred S jar cookie) : IsCsrfName S cookie.name := by
  rcases h.2 with hn | ⟨hn, -⟩ <;> rcases csrfCookieNames_cases S with ⟨h₁, h₂⟩ | ⟨h₁, h₂⟩
  · exact .inl (hn.trans h₁)
  · exact .inr (.inl (hn.trans h₁))
  · exact .inr (.inl (hn.trans h₂))
  · exact .inl (hn.trans h₂)

theorem IsHonest.exists_isPreferred (h : IsHonest M S now jar) :
    ∃ cookie, IsPreferred S jar cookie := by
  by_cases hfirst : ∃ cookie ∈ jar, cookie.name = (csrfCookieNames S).1
  · obtain ⟨cookie, hmem, hname⟩ := hfirst
    exact ⟨cookie, hmem, .inl hname⟩
  · push Not at hfirst
    obtain ⟨cookie, hmem, hname⟩ := h.present
    refine ⟨cookie, hmem, .inr ⟨?_, hfirst⟩⟩
    have hne := hfirst cookie hmem
    rcases csrfCookieNames_cases S with ⟨h₁, h₂⟩ | ⟨h₁, h₂⟩ <;> rcases hname with hn | hn
    · exact (hne (hn.trans h₁.symm)).elim
    · exact hn.trans h₂.symm
    · exact hn.trans h₂.symm
    · exact (hne (hn.trans h₁.symm)).elim

/-- The server selects the cookie that it prefers. -/
theorem extractCsrfCookie_eq (h : IsHonest M S now jar) (hsent : IsSent S jar request)
    (hp : IsPreferred S jar cookie) : extractCsrfCookie S request = some cookie.value := by
  obtain ⟨h₁, h₂⟩ := cookie_preferred_names hsent
  have hne := (h.isPlain hp.1 hp.isCsrfName).1
  rw [extractCsrfCookie, h₁, h₂]
  rcases hp.2 with hn | ⟨hn, hother⟩
  · rw [← hn, h.find?_name hp.1 hp.isCsrfName, Option.map_some, orElse, if_pos (isPresent_some hne)]
  · have hnone : (jar.find? fun cookie => cookie.name = (csrfCookieNames S).1) = none :=
      List.find?_eq_none.mpr fun other ho => by
        rw [decide_eq_true_iff]
        exact hother other ho
    rw [hnone, ← hn, h.find?_name hp.1 hp.isCsrfName]
    rfl

/-- The client sends the first cookie that it takes for the token. -/
theorem csrfHeader_documentCookie (h : IsHonest M S now jar) {method : String}
    (hmethod : isMutating method = true) : csrfHeader method (documentCookie jar) =
      some ((jar.find? fun cookie => cookie.IsOfClient).map Cookie.value) := by
  have hplain : ∀ cookie ∈ jar, cookie.IsOfClient → IsPlain cookie.value :=
    fun cookie hmem hclient => h.isPlain hmem (.inr (.inr hclient))
  have hvisible : ((jar.filter fun cookie => !cookie.httpOnly).find? fun cookie =>
      cookie.IsOfClient) = jar.find? fun cookie => cookie.IsOfClient := by
    rw [List.find?_filter]
    refine List.find?_congr fun cookie hmem => ?_
    by_cases hclient : cookie.IsOfClient
    · simp [(h.minted cookie hmem (.inr (.inr hclient))).1]
    · simp [hclient]
  rw [csrfHeader, if_pos hmethod, readCsrfCookie_documentCookie hplain, hvisible]
  refine congrArg some ?_
  cases hfind : jar.find? fun cookie => cookie.IsOfClient with
  | none => rfl
  | some cookie =>
    have hmem := List.mem_of_find?_eq_some hfind
    have hclient : cookie.IsOfClient := by simpa using List.find?_some hfind
    exact if_pos (isPresent_some (hplain cookie hmem hclient).1)

theorem csrfHeader_eq (h : IsHonest M S now jar) (hsent : IsSent S jar request) :
    request.csrfHeader = (jar.find? fun cookie => cookie.IsOfClient).map Cookie.value :=
  Option.some.inj (hsent.header.symm.trans (csrfHeader_documentCookie h hsent.mutating))

theorem find?_isOfClient_iff : (jar.find? fun cookie => cookie.IsOfClient) = some cookie ↔
    ∃ before after, jar = before ++ cookie :: after ∧ cookie.IsOfClient ∧
      ∀ other ∈ before, ¬ other.IsOfClient := by
  rw [List.find?_eq_some_iff_append]
  constructor
  · rintro ⟨hclient, before, after, hjar, hbefore⟩
    refine ⟨before, after, hjar, of_decide_eq_true hclient, fun other ho hother => ?_⟩
    have hfalse := hbefore other ho
    rw [decide_eq_true hother] at hfalse
    exact Bool.noConfusion hfalse
  · rintro ⟨before, after, hjar, hclient, hbefore⟩
    refine ⟨decide_eq_true hclient, before, after, hjar, fun other ho => ?_⟩
    rw [decide_eq_false (hbefore other ho)]
    rfl

/-- **A request of the client is let through if and only if client and server mean the same value.**
-/
theorem dispatch_isSent_iff (h : IsHonest M S now jar) (hsent : IsSent S jar request)
    (hchecked : IsChecked S request) :
    dispatch T M S now request = .passed ↔ AgreesWithServer S jar := by
  rw [dispatch_eq_passed_iff hchecked, csrfHeader_eq h hsent]
  obtain ⟨preferred, hp⟩ := h.exists_isPreferred
  rw [extractCsrfCookie_eq h hsent hp]
  constructor
  · rintro ⟨token, -, hcookie, hheader, -⟩
    obtain ⟨cookie, hfind, hvalue⟩ := Option.map_eq_some_iff.mp hheader
    obtain ⟨before, after, hjar, hclient, hbefore⟩ := find?_isOfClient_iff.mp hfind
    exact ⟨before, cookie, after, preferred, hjar, hclient, hbefore, hp,
      (Option.some.inj hcookie).trans hvalue.symm⟩
  · rintro ⟨before, cookie, after, preferred', hjar, hclient, hbefore, hp', hvalue⟩
    have hsame : preferred.value = preferred'.value := by
      have h₁ := extractCsrfCookie_eq h hsent hp
      have h₂ := extractCsrfCookie_eq h hsent hp'
      exact Option.some.inj (h₁.symm.trans h₂)
    have hfind := find?_isOfClient_iff.mpr ⟨before, after, hjar, hclient, hbefore⟩
    have hname := hp.isCsrfName
    obtain ⟨-, nonce, issuedAt, hfresh, hminted⟩ := h.minted preferred hp.1 hname
    refine ⟨preferred.value, (h.isPlain hp.1 hname).1, rfl, ?_, ?_⟩
    · rw [hfind, Option.map_some, hsame, hvalue]
    · rw [hminted]
      exact verifyCsrfToken_generateCsrfToken hfresh.1 hfresh.2

end Jars

/-! ### Double submit -/

/-- What is expected of the middleware when the server has issued these tokens, and of a request of
the client. -/
structure DoubleSubmit (T : DigitTable) (M : Mac) (S : Settings) (now : Clock)
    (issued : List (Nonce × Clock)) (request : Request) : Prop where
  /-- A request is let through only if it brings the cookie that the server selects in its header,
  too, and that is a token which the server has issued and which is still valid. -/
  guarded : ∀ request', IsChecked S request' → dispatch T M S now request' = .passed →
    (∀ token, request'.csrfHeader = some token → IsUnforged T M issued token) →
      ∃ token, request'.csrfHeader = some token ∧ extractCsrfCookie S request' = some token ∧
        ∃ p ∈ issued, IsFresh S now p.2 ∧ tokenParts T token =
          some (p.1.bytes, M.digest (p.1.bytes ++ bigEndian 8 p.2.seconds), (p.2.seconds : ℤ))
  /-- No text makes the check of tokens raise an exception. -/
  total : ∀ token, ∃ b, verifyCsrfToken T M S now token = .ok b
  /-- The request of the client is let through. -/
  honest : dispatch T M S now request = .passed

theorem guarded {issued : List (Nonce × Clock)} {request : Request} (hchecked : IsChecked S request)
    (hp : dispatch T M S now request = .passed)
    (hM : ∀ token, request.csrfHeader = some token → IsUnforged T M issued token) :
    ∃ token, request.csrfHeader = some token ∧ extractCsrfCookie S request = some token ∧
      ∃ p ∈ issued, IsFresh S now p.2 ∧ tokenParts T token =
        some (p.1.bytes, M.digest (p.1.bytes ++ bigEndian 8 p.2.seconds), (p.2.seconds : ℤ)) := by
  obtain ⟨token, -, hcookie, hheader, hv⟩ := (dispatch_eq_passed_iff hchecked).mp hp
  obtain ⟨nonce, issuedAt, message, hparts, hm, hlength, hle, httl⟩ := parts_of_verifyCsrfToken hv
  obtain ⟨p, hmem, hpayload⟩ := hM token hheader nonce issuedAt message hparts hm
  obtain ⟨hnonce, htime⟩ := eq_of_payload hm hlength hpayload
  refine ⟨token, hheader, hcookie, p, hmem, ⟨?_, ?_⟩, ?_⟩
  · omega
  · omega
  · rw [hparts, hpayload, hnonce, htime]

/-- **The middleware does what is expected of it if and only if** no token lives longer than the
epoch has lasted, and the first cookie that the client takes for the token has the value of the one
that the server prefers. -/
theorem doubleSubmit_iff {issued : List (Nonce × Clock)} {jar : List Cookie} {request : Request}
    (h : IsHonest M S now jar) (hsent : IsSent S jar request) (hchecked : IsChecked S request) :
    DoubleSubmit T M S now issued request ↔
      S.csrfTokenTtlSeconds ≤ now.seconds ∧ AgreesWithServer S jar := by
  rw [← forall_verifyCsrfToken_iff, ← dispatch_isSent_iff h hsent hchecked]
  constructor
  · intro hd
    exact ⟨hd.total, hd.honest⟩
  · rintro ⟨htotal, hhonest⟩
    exact ⟨fun request' hc hp hM => guarded hc hp hM, htotal, hhonest⟩

/-! ### Sessions across a change of the settings -/

/-- 21 September 2026. -/
def today : Clock := ⟨1790000000, by decide⟩

def zeroNonce : Nonce := ⟨List.replicate 16 0, List.length_replicate, fun b hb => by
  rw [List.eq_of_mem_replicate hb]
  decide⟩

def zeroMac : Mac := ⟨fun _ => List.replicate 32 0, fun _ => List.length_replicate, fun _ b hb => by
  rw [List.eq_of_mem_replicate hb]
  decide⟩

/-- A token of today, or of the minute before. -/
def tokenOf (late : Bool) : List ℕ :=
  generateCsrfToken zeroMac zeroNonce (if late then today else ⟨1789999940, by decide⟩)

theorem not_mem_tokenOf (late : Bool) : 59 ∉ tokenOf late := by
  intro h
  rcases isTokenChar_of_mem h with hd | hd
  · exact (isDigit_ne hd).2.2.1 rfl
  · cases hd

def accessCookie : Cookie where
  name := "nbu_access_token"
  value := [65]
  httpOnly := true
  name_ne := by decide
  name_ok := by decide
  name_head := by decide
  value_ok := by decide

def plainCookie (late : Bool) : Cookie where
  name := "nbu_csrf_token"
  value := tokenOf late
  httpOnly := false
  name_ne := by decide
  name_ok := by decide
  name_head := by decide
  value_ok := not_mem_tokenOf late

def hostCookie (late : Bool) : Cookie where
  name := "__Host-nbu_csrf_token"
  value := tokenOf late
  httpOnly := false
  name_ne := by decide
  name_ok := by decide
  name_head := by decide
  value_ok := not_mem_tokenOf late

/-- The settings of a deployment that has turned the prefix on. -/
def prefixed : Settings := { Settings.default with cookieSecure := true, cookieHostPrefix := true }

/-- The jar of a user who has logged in before the change and again after it. -/
def changedJar : List Cookie := [accessCookie, plainCookie false, hostCookie true]

/-- The jar of a user who has only logged in after the change. -/
def freshJar : List Cookie := [accessCookie, hostCookie true]

/-- The request of the client for a new team. -/
def teamRequest (jar : List Cookie) (token : List ℕ) : Request where
  method := "POST"
  path := "/api/v1/teams"
  cookie name := (jar.find? fun cookie => cookie.name = name).map Cookie.value
  csrfHeader := some token

theorem isFresh_today : IsFresh prefixed today today := by
  unfold IsFresh
  decide

theorem isHonest_freshJar : IsHonest zeroMac prefixed today freshJar where
  unique := by
    intro cookie hmem other hother hname hsame
    simp only [freshJar, List.mem_cons, List.not_mem_nil, or_false] at hmem hother
    rcases hmem with rfl | rfl <;> rcases hother with rfl | rfl
    · rfl
    · exact absurd hsame (by decide)
    · exact absurd hsame (by decide)
    · rfl
  minted := by
    intro cookie hmem hname
    simp only [freshJar, List.mem_cons, List.not_mem_nil, or_false] at hmem
    rcases hmem with rfl | rfl
    · exact absurd hname (by unfold IsCsrfName; decide)
    · exact ⟨rfl, zeroNonce, today, isFresh_today, rfl⟩
  present := ⟨hostCookie true, List.mem_cons_of_mem _ List.mem_cons_self, .inr (by decide)⟩

theorem isHonest_changedJar : IsHonest zeroMac prefixed today changedJar where
  unique := by
    intro cookie hmem other hother hname hsame
    simp only [changedJar, List.mem_cons, List.not_mem_nil, or_false] at hmem hother
    rcases hmem with rfl | rfl | rfl <;> rcases hother with rfl | rfl | rfl
    · rfl
    · exact absurd hsame (by decide)
    · exact absurd hsame (by decide)
    · exact absurd hsame (by decide)
    · rfl
    · exact absurd hsame (by decide)
    · exact absurd hsame (by decide)
    · exact absurd hsame (by decide)
    · rfl
  minted := by
    intro cookie hmem hname
    simp only [changedJar, List.mem_cons, List.not_mem_nil, or_false] at hmem
    rcases hmem with rfl | rfl | rfl
    · exact absurd hname (by unfold IsCsrfName; decide)
    · exact ⟨rfl, zeroNonce, ⟨1789999940, by decide⟩, by unfold IsFresh; decide, rfl⟩
    · exact ⟨rfl, zeroNonce, today, isFresh_today, rfl⟩
  present := ⟨plainCookie false, List.mem_cons_of_mem _ List.mem_cons_self, .inl rfl⟩

theorem isMutating_post : isMutating "POST" = true := by
  decide

theorem isSent_teamRequest {jar : List Cookie} {token : List ℕ}
    (h : IsHonest zeroMac prefixed today jar)
    (hfind : (jar.find? fun cookie => cookie.IsOfClient).map Cookie.value = some token) :
    IsSent prefixed jar (teamRequest jar token) where
  mutating := isMutating_post
  path := ⟨"/teams", rfl⟩
  cookie _ _ := rfl
  header := (csrfHeader_documentCookie h isMutating_post).trans (congrArg some hfind)

theorem isChecked_freshJar : IsChecked prefixed (teamRequest freshJar (tokenOf true)) :=
  ⟨by decide, by decide, by decide⟩

theorem isChecked_changedJar : IsChecked prefixed (teamRequest changedJar (tokenOf false)) :=
  ⟨by decide, by decide, by decide⟩

/-- The user who has only logged in after the change is let through. -/
theorem doubleSubmit_freshJar : DoubleSubmit DigitTable.ascii zeroMac prefixed today [(zeroNonce, today)]
    (teamRequest freshJar (tokenOf true)) :=
  (doubleSubmit_iff isHonest_freshJar (isSent_teamRequest isHonest_freshJar rfl)
    isChecked_freshJar).mpr
    ⟨by decide, [accessCookie], hostCookie true, [], hostCookie true, rfl, by decide, by decide,
      ⟨List.mem_cons_of_mem _ List.mem_cons_self, .inl (by decide)⟩, rfl⟩

theorem tokenOf_ne : tokenOf false ≠ tokenOf true := by
  intro h
  have hparts := congrArg (tokenParts DigitTable.ascii) h
  rw [tokenOf, tokenOf, tokenParts_generateCsrfToken, tokenParts_generateCsrfToken] at hparts
  have htime := congrArg (fun p : List ℕ × List ℕ × ℤ => p.2.2) (Option.some.inj hparts)
  exact absurd htime (by decide)

/-- **The user who has logged in before the change and again after it is not.** The client sends the
older cookie, and the server wants the other one. -/
theorem exists_not_doubleSubmit : ∃ jar request issued, IsHonest zeroMac prefixed today jar ∧
    IsSent prefixed jar request ∧ IsChecked prefixed request ∧
    dispatch DigitTable.ascii zeroMac prefixed today request = .rejected "token_mismatch" ∧
    ¬ DoubleSubmit DigitTable.ascii zeroMac prefixed today issued request := by
  have hsent : IsSent prefixed changedJar (teamRequest changedJar (tokenOf false)) :=
    isSent_teamRequest isHonest_changedJar rfl
  have hpreferred : IsPreferred prefixed changedJar (hostCookie true) :=
    ⟨List.mem_cons_of_mem _ (List.mem_cons_of_mem _ List.mem_cons_self), .inl (by decide)⟩
  have hcookie : extractCsrfCookie prefixed (teamRequest changedJar (tokenOf false)) =
      some (tokenOf true) :=
    extractCsrfCookie_eq isHonest_changedJar hsent hpreferred
  have hrejected : dispatch DigitTable.ascii zeroMac prefixed today
      (teamRequest changedJar (tokenOf false)) = .rejected "token_mismatch" := by
    have hne (late : Bool) : tokenOf late ≠ [] := generateCsrfToken_ne_nil
    have hheader : (teamRequest changedJar (tokenOf false)).csrfHeader = some (tokenOf false) := rfl
    rw [dispatch_eq isChecked_changedJar, hcookie, hheader]
    dsimp only
    rw [if_neg (by simp [hne]), if_pos tokenOf_ne.symm]
  refine ⟨changedJar, teamRequest changedJar (tokenOf false), [(zeroNonce, today)],
    isHonest_changedJar, hsent, isChecked_changedJar, hrejected, fun hd => ?_⟩
  have hpassed := hrejected.symm.trans hd.honest
  cases hpassed

end NextBallUp.Csrf
