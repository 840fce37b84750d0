import NextBallUp.Lib.Exceptions
import NextBallUp.Tokens.Encoding

/-!
# Minted tokens

A token that is minted is accepted as what it is, until it expires, and as nothing else. The decoder
reads no token of more than `maxJwtBytes` bytes, and the token of a user names all of their teams.

## Main definitions

* `Usable`: what a minted token is good for
* `expiry`: the second at which it expires

## Main results

* `decodeRs256_encode`: what the decoder makes of a minted token
* `usable_iff`: **a minted token is usable if and only if it is short enough** and expires before
  the year 2514, unless it has expired already
* `exists_not_usable`: the tokens of a member of 200 teams
-/

namespace NextBallUp.Tokens

open JsonText (Writable)

variable {K : KeyPair} {S : Settings} {limit : ℕ} {r : Request} {now t : Datetime} {iat exp : ℤ}
  {expectedType : String} {audience : Option String}

/-! ### What the decoder finds -/

/-- The claims as they are decoded. -/
def decodedClaims (S : Settings) (r : Request) (iat exp : ℤ) : Claims :=
  Json.markFields (sortKeys (claims S r iat exp))

theorem get_decodedClaims (key : String) :
    (decodedClaims S r iat exp).get key = ((claims S r iat exp).get key).mark :=
  get_decoded (nodup_keys_claims S r iat exp) key

theorem get_claims (S : Settings) (r : Request) (iat exp : ℤ) :
    (claims S r iat exp).get "iss" = text S.jwtIssuer ∧
    (claims S r iat exp).get "exp" = .int exp ∧ (claims S r iat exp).get "iat" = .int iat ∧
    (claims S r iat exp).get "sv" = .int r.user.sessionVersion ∧
    (claims S r iat exp).get "sub" = .str r.user.id.str ∧
    (claims S r iat exp).get "jti" = .str r.jti.str ∧
    (claims S r iat exp).get "type" = text r.kind.type := by
  obtain ⟨user, jti, kind⟩ := r
  cases kind <;>
    simp [claims, buildClaims, playbackClaims, field, Json.Fields.get, String.codePoints_inj]

theorem get_playbackClaims (S : Settings) (iat exp : ℤ) {videoId teamId : Uuid}
    (h : r.kind = .playback videoId teamId) :
    (claims S r iat exp).get "aud" = text S.playbackTokenAudience ∧
      (claims S r iat exp).get "vid" = .str videoId.str ∧
      (claims S r iat exp).get "tid" = .str teamId.str ∧
      (claims S r iat exp).get "role" = text (roleValue r.user.role) := by
  obtain ⟨user, jti, kind⟩ := r
  obtain rfl : kind = .playback videoId teamId := h
  simp [claims, playbackClaims, field, Json.Fields.get, String.codePoints_inj]

/-- The registered claims are refused by the expiry or by the audience. -/
theorem validateRegisteredClaims_eq :
    validateRegisteredClaims S t audience (decodedClaims S r iat exp) =
      if exp ≤ timestamp t.micros then .error (.jwt "Expired token")
      else match audience with
        | none => .ok ()
        | some audience =>
          if !audienceMatches ((decodedClaims S r iat exp).get "aud") audience then
            .error (.jwt "Invalid token audience")
          else .ok () := by
  obtain ⟨hiss, hexp, -⟩ := get_claims S r iat exp
  have hissuer : ((decodedClaims S r iat exp).get "iss").isText S.jwtIssuer = true := by
    rw [get_decodedClaims, hiss, isText_mark_text]
    exact decide_eq_true rfl
  have hexpiry : ((decodedClaims S r iat exp).get "exp").asInt = some exp := by
    rw [get_decodedClaims, hexp]
    rfl
  unfold validateRegisteredClaims
  rw [hissuer, hexpiry]
  show (if exp ≤ timestamp t.micros then _ else _) = _
  split_ifs
  · rfl
  · cases audience with
    | none => rfl
    | some audience => rfl

theorem validateRegisteredClaims_own (h : timestamp t.micros < exp) :
    validateRegisteredClaims S t (r.kind.audience S) (decodedClaims S r iat exp) = .ok () := by
  rw [validateRegisteredClaims_eq, if_neg (not_le.mpr h)]
  cases hk : r.kind with
  | access teamIds => rfl
  | refresh teamIds => rfl
  | playback videoId teamId =>
    have haud := (get_playbackClaims S iat exp hk).1
    have hmatches : audienceMatches ((decodedClaims S r iat exp).get "aud")
        S.playbackTokenAudience = true := by
      rw [get_decodedClaims, haud]
      show (text S.playbackTokenAudience).mark.isText S.playbackTokenAudience = true
      rw [isText_mark_text]
      exact decide_eq_true rfl
    show (if !audienceMatches ((decodedClaims S r iat exp).get "aud") S.playbackTokenAudience
      then _ else _) = _
    rw [hmatches]
    rfl

theorem validateRegisteredClaims_cases (S : Settings) (r : Request) (t : Datetime)
    (audience : Option String) (iat exp : ℤ) :
    validateRegisteredClaims S t audience (decodedClaims S r iat exp) = .ok () ∧
        timestamp t.micros < exp ∨
      ∃ m, validateRegisteredClaims S t audience (decodedClaims S r iat exp) = .error (.jwt m) := by
  rw [validateRegisteredClaims_eq]
  split_ifs with hexpired
  · exact .inr ⟨_, rfl⟩
  · cases audience with
    | none => exact .inl ⟨rfl, not_le.mp hexpired⟩
    | some audience =>
      dsimp only
      split_ifs
      · exact .inr ⟨_, rfl⟩
      · exact .inl ⟨rfl, not_le.mp hexpired⟩

/-- **What the decoder makes of a minted token.** -/
theorem decodeRs256_encode (t : Datetime) (audience : Option String)
    (hK : K.Seals (signingInput (claims S r iat exp)))
    (hw : Writable limit (.obj (claims S r iat exp))) :
    decodeRs256 K S limit t audience (encodeRs256 K (claims S r iat exp)) =
      if maxJwtBytes < tokenLength K S r iat exp then .error (.jwt "Token too large")
      else do
        validateRegisteredClaims S t audience (decodedClaims S r iat exp)
        return decodedClaims S r iat exp := by
  have hsign := K.lt_of_mem_sign (signingInput (claims S r iat exp))
  have hne : K.sign (signingInput (claims S r iat exp)) ≠ [] := by
    refine List.ne_nil_of_length_pos ?_
    rw [K.length_sign]
    exact K.size_pos
  have hsplit := splitOn_withSignature hw hsign
  unfold decodeRs256
  rw [encodeRs256, utf8Length_of_ascii (ascii_withSignature hw hsign), hsplit]
  dsimp only
  rw [← encodeRs256, length_encodeRs256 K S r hw]
  split_ifs with hlong
  · rfl
  rw [jsonB64urlDecode_encode (writable_header hw.1), jsonB64urlDecode_encode hw,
    b64urlDecode_encode hsign hne]
  have hverify : K.verify (K.sign (signingInput (claims S r iat exp)))
      (jsonB64urlEncode header ++ 46 :: jsonB64urlEncode (claims S r iat exp)) = true :=
    (hK _).mpr rfl
  show (if !K.verify (K.sign (signingInput (claims S r iat exp)))
    (jsonB64urlEncode header ++ 46 :: jsonB64urlEncode (claims S r iat exp)) then _ else _) = _
  rw [hverify]
  rfl

/-! ### What `decode_token` makes of it -/

variable {token : List ℕ} {decoded : Claims}

theorem decodeToken_of_jwt {m : String}
    (h : decodeRs256 K S limit t audience token = .error (.jwt m)) :
    decodeToken K S limit t expectedType audience token =
      .error (.authentication "Invalid or expired token") := by
  unfold decodeToken
  rw [h]
  rfl

theorem decodeToken_of_type_ne (h : decodeRs256 K S limit t audience token = .ok decoded)
    (htype : (decoded.get "type").isText expectedType = false) :
    decodeToken K S limit t expectedType audience token =
      .error (.authentication "Wrong token type") := by
  unfold decodeToken
  rw [h]
  show (if !(decoded.get "type").isText expectedType then _ else _) = _
  rw [htype]
  rfl

theorem isText_type : ((decodedClaims S r iat exp).get "type").isText expectedType =
    decide (r.kind.type = expectedType) := by
  obtain ⟨-, -, -, -, -, -, htype⟩ := get_claims S r iat exp
  rw [get_decodedClaims, htype, isText_mark_text]

theorem decodeToken_own
    (h : decodeRs256 K S limit t audience token = .ok (decodedClaims S r iat exp)) :
    decodeToken K S limit t r.kind.type audience token = .ok (decodedClaims S r iat exp) := by
  obtain ⟨-, -, hiat, hsv, hsub, hjti, -⟩ := get_claims S r iat exp
  have hsub' : isStr ((decodedClaims S r iat exp).get "sub") = true := by
    rw [get_decodedClaims, hsub]
    rfl
  have hjti' : isStr ((decodedClaims S r iat exp).get "jti") = true := by
    rw [get_decodedClaims, hjti]
    rfl
  have hiat' : isInt ((decodedClaims S r iat exp).get "iat") = true := by
    rw [get_decodedClaims, hiat]
    rfl
  have hsv' : isInt ((decodedClaims S r iat exp).get "sv") = true := by
    rw [get_decodedClaims, hsv]
    rfl
  unfold decodeToken
  rw [h]
  show (if !((decodedClaims S r iat exp).get "type").isText r.kind.type then _ else _) = _
  rw [isText_type, decide_eq_true rfl, hsub', hjti', hiat', hsv']
  show (if r.kind.type = "playback" then _ else _) = _
  cases hk : r.kind with
  | access teamIds => rfl
  | refresh teamIds => rfl
  | playback videoId teamId =>
    obtain ⟨-, hvid, htid, hrole⟩ := get_playbackClaims S iat exp hk
    have hvid' : isStr ((decodedClaims S r iat exp).get "vid") = true := by
      rw [get_decodedClaims, hvid]
      rfl
    have htid' : isStr ((decodedClaims S r iat exp).get "tid") = true := by
      rw [get_decodedClaims, htid]
      rfl
    have hrole' : isStr ((decodedClaims S r iat exp).get "role") = true := by
      rw [get_decodedClaims, hrole]
      rfl
    show (if !isStr ((decodedClaims S r iat exp).get "vid") then _ else _) = _
    rw [hvid', htid', hrole']
    rfl

/-- A token that is decoded has a signature of its own text. -/
theorem verify_of_decodeRs256 {input segment : List ℕ} (hdot : 46 ∉ segment)
    (h : decodeRs256 K S limit t audience (input ++ 46 :: segment) = .ok decoded) :
    ∃ signature, b64urlDecode segment = .ok signature ∧ K.verify signature input = true := by
  have hjoin : [46].intercalate (input.splitOn 46) = input := List.intercalate_splitOn 46
  unfold decodeRs256 at h
  rw [List.splitOn_append_cons_self, List.splitOn_eq_singleton hdot] at h
  cases hn : utf8Length (input ++ 46 :: segment) with
  | none =>
    rw [hn] at h
    cases h
  | some n => ?_
  rw [hn] at h
  dsimp only at h
  split_ifs at h with hlong
  · cases h
  match hs : input.splitOn 46 with
  | [] => exact (List.splitOn_ne_nil 46 input hs).elim
  | [_] =>
    rw [hs] at h
    cases h
  | [headerSegment, payloadSegment] =>
    rw [hs] at h hjoin
    obtain ⟨header, -, h⟩ := Except.exists_of_bind_eq_ok h
    obtain ⟨claims, -, h⟩ := Except.exists_of_bind_eq_ok h
    generalize (header.get "alg").isText jwtAlgorithm = isAlg at h
    cases isAlg with
    | false => cases h
    | true => ?_
    generalize (getD header "typ" (.str ("JWT".codePoints.map JsonText.mark))).isText "JWT" = isTyp
      at h
    cases isTyp with
    | false => cases h
    | true => ?_
    obtain ⟨signature, hsignature, h⟩ := Except.exists_of_bind_eq_ok h
    refine ⟨signature, hsignature, ?_⟩
    cases hverify : K.verify signature input with
    | true => rfl
    | false =>
      have hinput : headerSegment ++ 46 :: payloadSegment = input := by simpa using hjoin
      rw [hinput, hverify] at h
      cases h
  | _ :: _ :: _ :: rest =>
    rw [hs] at h
    cases rest <;> cases h

theorem eq_ok_of_decodeToken
    (h : decodeToken K S limit t expectedType audience token = .ok decoded) :
    ∃ decoded', decodeRs256 K S limit t audience token = .ok decoded' := by
  unfold decodeToken at h
  obtain ⟨decoded', hd, -⟩ := Except.exists_of_bind_eq_ok h
  refine ⟨decoded', Except.eq_ok_of_tryCatch ?_ hd⟩
  rintro (_ | _ | _ | _)
  · exact ⟨_, rfl⟩
  · exact ⟨_, rfl⟩
  · exact ⟨_, rfl⟩
  · exact ⟨_, rfl⟩

/-- **No other text goes with the signature of a token.** -/
theorem decodeToken_tampered {input segment input' : List ℕ}
    (hK : K.Seals input) (hsegment : segment = b64urlEncode (K.sign input)) (hne : input' ≠ input) :
    ∃ e, decodeToken K S limit t expectedType audience (input' ++ 46 :: segment) = .error e := by
  refine Except.exists_error_of_ne_ok fun decoded h => ?_
  have hsign := K.lt_of_mem_sign input
  have hpos : K.sign input ≠ [] := by
    refine List.ne_nil_of_length_pos ?_
    rw [K.length_sign]
    exact K.size_pos
  obtain ⟨decoded', hd⟩ := eq_ok_of_decodeToken h
  obtain ⟨signature, hsignature, hverify⟩ :=
    verify_of_decodeRs256 (hsegment ▸ dot_not_mem_segment hsign) hd
  rw [hsegment, b64urlDecode_encode hsign hpos] at hsignature
  cases hsignature
  exact hne ((hK input').mp hverify)

/-! ### Minted tokens -/

/-- The second at which a token that is minted now expires. -/
def expiry (S : Settings) (r : Request) (now : Datetime) : ℤ :=
  timestamp (now.micros + r.kind.lifetime S * 10 ^ 6)

/-- What a token that was minted from a request with these claims is good for. -/
structure Usable (K : KeyPair) (S : Settings) (limit : ℕ) (r : Request) (now : Datetime) (exp : ℤ)
    (claims : Json.Fields ℕ) (token : List ℕ) : Prop where
  /-- From when it was issued until it expires, it is accepted as what it is, with its claims. -/
  accepted : ∀ t : Datetime, now.micros ≤ t.micros → (t.micros : ℤ) < exp * 10 ^ 6 →
    ∃ written, written.Perm claims ∧
      decodeToken K S limit t r.kind.type (r.kind.audience S) token =
        .ok (Json.markFields written)
  /-- It is accepted as nothing else. -/
  separate : ∀ (t : Datetime) (expectedType : String) (audience : Option String),
    expectedType ≠ r.kind.type →
      ∃ m, decodeToken K S limit t expectedType audience token = .error (.authentication m)
  /-- It is not accepted once it has expired. -/
  expires : ∀ (t : Datetime) (expectedType : String) (audience : Option String),
    exp * 10 ^ 6 ≤ t.micros →
      ∃ m, decodeToken K S limit t expectedType audience token = .error (.authentication m)
  /-- Its header and its payload cannot be changed. -/
  sealed : ∀ (t : Datetime) (expectedType : String) (audience : Option String)
    (input segment input' : List ℕ), token = input ++ 46 :: segment → 46 ∉ segment →
      input' ≠ input →
        ∃ e, decodeToken K S limit t expectedType audience (input' ++ 46 :: segment) = .error e

/-- The last dot of a text cuts it in one way. -/
theorem append_cons_inj {input segment input' segment' : List ℕ}
    (h : input' ++ 46 :: segment' = input ++ 46 :: segment) (hdot : 46 ∉ segment)
    (hdot' : 46 ∉ segment') : input' = input ∧ segment = segment' := by
  have hsplit := congrArg (List.splitOn 46) h
  rw [List.splitOn_append_cons_self, List.splitOn_append_cons_self,
    List.splitOn_eq_singleton hdot, List.splitOn_eq_singleton hdot'] at hsplit
  obtain ⟨hinput, hsegment⟩ := List.append_inj' hsplit rfl
  refine ⟨?_, (List.cons.inj hsegment).1.symm⟩
  calc input' = [46].intercalate (input'.splitOn 46) := (List.intercalate_splitOn 46).symm
    _ = [46].intercalate (input.splitOn 46) := by rw [hinput]
    _ = input := List.intercalate_splitOn 46

theorem eq_of_mintedClaims {claims' : Json.Fields ℕ} (h : mintedClaims S r now = some claims') :
    claims' = claims S r (timestamp now.micros) (expiry S r now) ∧
      |expiry S r now| ≤ 253402300800 := by
  obtain ⟨t, ht, rfl⟩ := Option.map_eq_some_iff.mp h
  unfold Datetime.later at ht
  dsimp only at ht
  split_ifs at ht with hrange
  obtain rfl := Option.some.inj ht
  exact ⟨rfl, abs_timestamp_le hrange.1 hrange.2⟩

theorem abs_timestamp_now_le (now : Datetime) : |timestamp now.micros| ≤ 253402300800 := by
  refine abs_timestamp_le ?_ now.le_max
  have hnonneg := Int.natCast_nonneg now.micros
  unfold datetimeMin
  omega

theorem decodeRs256_cases (t : Datetime) (audience : Option String)
    (hK : K.Seals (signingInput (claims S r iat exp)))
    (hw : Writable limit (.obj (claims S r iat exp))) :
    decodeRs256 K S limit t audience (encodeRs256 K (claims S r iat exp)) =
        .ok (decodedClaims S r iat exp) ∧
      timestamp t.micros < exp ∧ tokenLength K S r iat exp ≤ maxJwtBytes ∨
    ∃ m, decodeRs256 K S limit t audience (encodeRs256 K (claims S r iat exp)) =
      .error (.jwt m) := by
  rw [decodeRs256_encode _ _ hK hw]
  split_ifs with hlong
  · exact .inr ⟨_, rfl⟩
  · rcases validateRegisteredClaims_cases S r t audience iat exp with
      ⟨h, hlt⟩ | ⟨m, h⟩
    · rw [h]
      exact .inl ⟨rfl, hlt, not_lt.mp hlong⟩
    · rw [h]
      exact .inr ⟨m, rfl⟩

/-- The token is accepted as long as it has not expired, if it is not too long. -/
theorem decodeToken_minted (hK : K.Seals (signingInput (claims S r iat exp)))
    (hw : Writable limit (.obj (claims S r iat exp))) (ht : timestamp t.micros < exp)
    (hlen : tokenLength K S r iat exp ≤ maxJwtBytes) :
    decodeToken K S limit t r.kind.type (r.kind.audience S)
      (encodeRs256 K (claims S r iat exp)) = .ok (decodedClaims S r iat exp) := by
  refine decodeToken_own ?_
  rw [decodeRs256_encode _ _ hK hw, if_neg (not_lt.mpr hlen), validateRegisteredClaims_own ht]
  rfl

/-- **A minted token is usable if and only if it is short enough**, and expires before the year
2514, unless it has expired already. -/
theorem usable_iff {claims' : Json.Fields ℕ} {token : List ℕ} (hlimit : 2 ≤ limit)
    (hclaims : mintedClaims S r now = some claims') (htoken : mint K S r now = some token)
    (hK : K.Seals (signingInput claims')) :
    Usable K S limit r now (expiry S r now) claims' token ↔
      ((now.micros : ℤ) < expiry S r now * 10 ^ 6 →
        expiry S r now ≤ 2 ^ 34 ∧
          tokenLength K S r (timestamp now.micros) (expiry S r now) ≤ maxJwtBytes) := by
  obtain ⟨rfl, hexp⟩ := eq_of_mintedClaims hclaims
  obtain rfl : encodeRs256 K _ = token := by
    rw [mint, hclaims] at htoken
    exact Option.some.inj htoken
  have hw : Writable limit (.obj (claims S r (timestamp now.micros) (expiry S r now))) :=
    writable_claims S r hlimit (abs_timestamp_now_le now) hexp
  generalize timestamp now.micros = iat at *
  generalize expiry S r now = exp at *
  constructor
  · intro h hnow
    -- The last microsecond before the expiry.
    obtain ⟨t, ht⟩ : ∃ t : Datetime, (t.micros : ℤ) + 1 = exp * 10 ^ 6 := by
      obtain ⟨hmin, hmax⟩ := abs_le.mp hexp
      refine ⟨⟨(exp * 10 ^ 6 - 1).toNat, ?_⟩, ?_⟩
      · rw [Int.toNat_of_nonneg (by omega), datetimeMax]
        omega
      · show ((exp * 10 ^ 6 - 1).toNat : ℤ) + 1 = _
        rw [Int.toNat_of_nonneg (by omega)]
        omega
    obtain ⟨written, -, haccepted⟩ := h.accepted t (by omega) (by omega)
    rcases decodeRs256_cases t (r.kind.audience S) hK hw with
      ⟨-, hlt, hlen⟩ | ⟨m, herror⟩
    · refine ⟨?_, hlen⟩
      by_contra hlate
      have hle := le_timestamp_of_lt t.le_max (n := exp) (by omega) (by omega)
      omega
    · rw [decodeToken_of_jwt herror] at haccepted
      cases haccepted
  · intro h
    refine ⟨fun t hnow ht => ?_, fun t expectedType audience hne => ?_,
      fun t expectedType audience ht => ?_, fun t expectedType audience input segment input' he hdot
        hne => ?_⟩
    · obtain ⟨hyear, hlen⟩ := h (by omega)
      exact ⟨_, sortKeys_perm _, decodeToken_minted hK hw (timestamp_lt t.le_max ht hyear) hlen⟩
    · rcases decodeRs256_cases t audience hK hw with ⟨hok, -⟩ | ⟨m, herror⟩
      · refine ⟨_, decodeToken_of_type_ne hok ?_⟩
        rw [isText_type]
        exact decide_eq_false (Ne.symm hne)
      · exact ⟨_, decodeToken_of_jwt herror⟩
    · rcases decodeRs256_cases t audience hK hw with ⟨-, hlt, -⟩ | ⟨m, herror⟩
      · have hle := le_timestamp t.le_max ht
        omega
      · exact ⟨_, decodeToken_of_jwt herror⟩
    · obtain ⟨rfl, hsegment⟩ := append_cons_inj he hdot
        (dot_not_mem_segment (K.lt_of_mem_sign (signingInput (claims S r iat exp))))
      exact decodeToken_tampered hK hsegment hne

/-! ### Coaches -/

/-- A signature of 2048 bits. -/
def zeros : List ℕ := List.replicate 256 0

/-- A key of 2048 bits that has signed one message. -/
def keyOf (message : List ℕ) : KeyPair where
  sign _ := zeros
  verify signature message' := decide (signature = zeros ∧ message' = message)
  size := 256
  size_pos := by decide
  length_sign _ := List.length_replicate
  lt_of_mem_sign _ b hb := by
    rw [List.eq_of_mem_replicate hb]
    decide

theorem seals_keyOf (message : List ℕ) : (keyOf message).Seals message := by
  intro message'
  simp only [keyOf, decide_eq_true_eq, true_and]

/-- A coach of so many teams. -/
def coachOf (teams : ℕ) : User where
  id := ⟨1, by decide⟩
  role := .coach
  sessionVersion := 0
  teamMemberships := (List.range teams).map fun i =>
    ⟨⟨i % 2 ^ 128, Nat.mod_lt _ (by decide)⟩, true, some true⟩
  sessionVersion_lt := by decide

theorem length_teamIds_coachOf (teams : ℕ) : (teamIds (coachOf teams)).length = teams := by
  have hactive : (coachOf teams).teamMemberships.filter
      (fun m => m.isActive && m.teamIsLive = some true) = (coachOf teams).teamMemberships := by
    refine List.filter_eq_self.mpr fun m hm => ?_
    obtain ⟨i, -, rfl⟩ := List.mem_map.mp hm
    rfl
  rw [teamIds, hactive, List.length_map, coachOf, List.length_map, List.length_range]

/-- The access token of a coach who logs in. -/
def coachRequest (teams : ℕ) : Request :=
  ⟨coachOf teams, ⟨2, by decide⟩, .access (teamIds (coachOf teams))⟩

/-- 21 September 2026. -/
def loginTime : Datetime := ⟨1790000000 * 10 ^ 6, by decide⟩

theorem timestamp_loginTime : timestamp loginTime.micros = 1790000000 :=
  timestamp_of_second (by decide)

theorem expiry_coachRequest (teams : ℕ) :
    expiry Settings.default (coachRequest teams) loginTime = 1790000900 :=
  timestamp_of_second (n := 1790000900) (by decide)

/-- The claims of the token. -/
def coachClaims (teams : ℕ) : Json.Fields ℕ :=
  claims Settings.default (coachRequest teams) 1790000000 1790000900

theorem mintedClaims_coachRequest (teams : ℕ) :
    mintedClaims Settings.default (coachRequest teams) loginTime = some (coachClaims teams) := by
  have hlater : loginTime.later ((coachRequest teams).kind.lifetime Settings.default) =
      some ((1790000900 * 10 ^ 6 : ℕ) : ℤ) := rfl
  rw [mintedClaims, hlater, Option.map_some, timestamp_loginTime,
    timestamp_of_second (n := 1790000900) (by decide)]
  rfl

theorem writable_coachClaims (teams : ℕ) : Writable 1000 (.obj (coachClaims teams)) :=
  writable_claims _ _ (by decide) (by decide) (by decide)

theorem mint_coachRequest (K : KeyPair) (teams : ℕ) :
    mint K Settings.default (coachRequest teams) loginTime =
      some (encodeRs256 K (coachClaims teams)) := by
  rw [mint, mintedClaims_coachRequest, Option.map_some]

/-- The token of the coach of one team is usable. -/
theorem usable_coachOf : Usable (keyOf (signingInput (coachClaims 1))) Settings.default 1000
    (coachRequest 1) loginTime 1790000900 (coachClaims 1)
    (encodeRs256 (keyOf (signingInput (coachClaims 1))) (coachClaims 1)) := by
  have h := (usable_iff (by decide : 2 ≤ 1000) (mintedClaims_coachRequest 1)
    (mint_coachRequest (keyOf (signingInput (coachClaims 1))) 1) (seals_keyOf _)).mpr
  rw [expiry_coachRequest, timestamp_loginTime] at h
  exact h fun _ => ⟨by decide, by decide⟩

/-- **The token of the coach of 200 teams is not.** They log in, and the token that they get is
refused at once. -/
theorem exists_not_usable : ∃ (K : KeyPair) (accessToken refreshToken : List ℕ),
    issueTokens K Settings.default (coachOf 200) none ⟨2, by decide⟩ ⟨3, by decide⟩ loginTime
        loginTime = some (accessToken, refreshToken) ∧
      K.Seals (signingInput (coachClaims 200)) ∧
      decodeToken K Settings.default 1000 loginTime "access" none accessToken =
        .error (.authentication "Invalid or expired token") ∧
      ¬ Usable K Settings.default 1000 (coachRequest 200) loginTime 1790000900 (coachClaims 200)
        accessToken := by
  have hK := seals_keyOf (signingInput (coachClaims 200))
  have hw := writable_coachClaims 200
  -- The identifiers of 200 teams take 7,800 bytes, and base64 makes 10,400 of them.
  have hlong : maxJwtBytes < tokenLength (keyOf (signingInput (coachClaims 200))) Settings.default
      (coachRequest 200) 1790000000 1790000900 := by
    have hteams := length_teamIds_coachOf 200
    simp only [tokenLength, payloadLength, coachRequest, hteams, maxJwtBytes]
    omega
  have hrefused : decodeToken (keyOf (signingInput (coachClaims 200))) Settings.default 1000
      loginTime "access" none (encodeRs256 (keyOf (signingInput (coachClaims 200)))
        (coachClaims 200)) = .error (.authentication "Invalid or expired token") := by
    refine decodeToken_of_jwt (m := "Token too large") ?_
    have h := decodeRs256_encode loginTime none hK hw
    rwa [if_pos hlong] at h
  obtain ⟨refreshToken, hrefresh⟩ : ∃ refreshToken,
      mint (keyOf (signingInput (coachClaims 200))) Settings.default
        ⟨coachOf 200, ⟨3, by decide⟩, .refresh (teamIds (coachOf 200))⟩ loginTime =
          some refreshToken :=
    ⟨_, rfl⟩
  refine ⟨_, _, refreshToken, ?_, hK, hrefused, fun h => ?_⟩
  · have haccess := mint_coachRequest (keyOf (signingInput (coachClaims 200))) 200
    rw [coachRequest] at haccess
    simp only [issueTokens, Option.getD_none, haccess, hrefresh]
    rfl
  · obtain ⟨written, -, haccepted⟩ := h.accepted loginTime le_rfl (by decide)
    have haccepted' := hrefused.symm.trans haccepted
    cases haccepted'

end NextBallUp.Tokens
