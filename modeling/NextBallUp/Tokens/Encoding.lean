import NextBallUp.Lib.JsonReads
import NextBallUp.Tokens.Times

/-!
# Encoded tokens

A token is three segments of ASCII characters. The second one is as long as the claims make it, and
the claims have a place for each team of the user.

## Main definitions

* `payloadLength`, `tokenLength`: the length of the claims as a JSON text, and of the token

## Main results

* `jsonB64urlDecode_encode`: **what is encoded is decoded** to the same members
* `splitOn_withSignature`: a token is cut into its segments again
* `length_encodeRs256`: **the length of a token**
-/

namespace NextBallUp.Tokens

open JsonText (IsText Writable writeString dumps dumpsWith)

/-! ### Segments -/

section Segments

variable {raw value : List ℕ}

theorem isB64urlChar_digit {c : ℕ} (h : Base64.IsDigit c) : isB64urlChar c = true := by
  obtain ⟨v, hv, rfl⟩ := h
  revert v
  decide

theorem isB64urlChar_of_mem {c : ℕ} (hraw : ∀ b ∈ raw, b < 256) (h : c ∈ b64urlEncode raw) :
    isB64urlChar c = true :=
  isB64urlChar_digit (Base64.isDigit_of_mem_urlEncode hraw h)

theorem length_b64urlEncode (h : ∀ b ∈ raw, b < 256) :
    (b64urlEncode raw).length = (4 * raw.length + 2) / 3 :=
  Base64.length_urlEncode h

theorem b64urlDecode_encode (h : ∀ b ∈ raw, b < 256) (hne : raw ≠ []) :
    b64urlDecode (b64urlEncode raw) = .ok raw := by
  have hpos := List.length_pos_iff.mpr hne
  have hlen := length_b64urlEncode h
  have hcond : ¬ (b64urlEncode raw = [] ∨ ∃ c ∈ b64urlEncode raw, isB64urlChar c = false) := by
    rintro (hnil | ⟨c, hc, hchar⟩)
    · rw [hnil, List.length_nil] at hlen
      omega
    · rw [isB64urlChar_of_mem h hc] at hchar
      exact Bool.noConfusion hchar
  rw [b64urlDecode, if_neg hcond, b64urlEncode, Base64.decode_pad_urlEncode h]

end Segments

section Objects

variable {limit : ℕ} {fields : Json.Fields ℕ}

theorem sortKeys_perm (fields : Json.Fields ℕ) : (sortKeys fields).Perm fields :=
  List.perm_insertionSort ..

theorem lt_of_mem_dumps (h : Writable limit (.obj (sortKeys fields))) :
    ∀ c ∈ dumps (.obj (sortKeys fields)), c < 256 := fun c hc =>
  (JsonText.printable_dumps _ h c hc).2.trans (by decide)

/-- **What is encoded is decoded** to the same members. -/
theorem jsonB64urlDecode_encode (h : Writable limit (.obj fields)) :
    jsonB64urlDecode limit (jsonB64urlEncode fields) = .ok (Json.markFields (sortKeys fields)) := by
  have hw := h.perm (sortKeys_perm fields)
  have hprint := JsonText.printable_dumps _ hw
  have hloads : JsonText.loadsBytes limit (dumps (.obj (sortKeys fields))) =
      .ok (Json.obj (sortKeys fields)).mark := by
    rw [← JsonText.loads_dumps hw]
    rw [dumps, dumpsWith] at hprint ⊢
    cases hd : JsonText.dumpsFieldsWith [] (sortKeys fields) ++ [125] with
    | nil => exact (List.append_ne_nil_of_right_ne_nil _ (List.cons_ne_nil _ _) hd).elim
    | cons c rest =>
      rw [hd] at hprint
      have hc := hprint c (List.mem_cons_of_mem _ List.mem_cons_self)
      refine JsonText.loadsBytes_eq_loads (fun d hd => ?_) (by decide) (by omega)
      have hlt := (hprint d hd).2
      omega
  rw [jsonB64urlDecode, jsonB64urlEncode, b64urlDecode_encode (lt_of_mem_dumps hw)
    (by rw [dumps]; exact List.cons_ne_nil _ _)]
  dsimp only [bind, Except.bind]
  rw [hloads]
  rfl

/-- The length of a segment that holds an object. -/
theorem length_jsonB64urlEncode (h : Writable limit (.obj fields)) (hne : fields ≠ []) :
    (jsonB64urlEncode fields).length = (4 * (1 + (fields.map fun f =>
      (writeString f.1).length + (dumps f.2).length + 2).sum) + 2) / 3 := by
  have hp := sortKeys_perm fields
  have hne' : sortKeys fields ≠ [] := fun he => hne ((he ▸ hp).symm.eq_nil)
  rw [jsonB64urlEncode, length_b64urlEncode (lt_of_mem_dumps (h.perm hp)),
    JsonText.length_dumps_obj hne', (hp.map _).sum_eq]

/-- A member of an object as it is decoded. -/
theorem get_decoded (hnodup : (fields.map Prod.fst).Nodup) (key : String) :
    (Json.markFields (sortKeys fields)).get key = (fields.get key).mark := by
  have hp := sortKeys_perm fields
  rw [JsonText.get_markFields,
    JsonText.get_perm hp key ((hp.map Prod.fst).nodup_iff.mpr hnodup)]

@[simp] theorem isText_mark_text (s expected : String) :
    (text s).mark.isText expected = decide (s = expected) := by
  show decide (codes (s.codePoints.map JsonText.mark) = expected.codePoints) = _
  rw [JsonText.codes_map_mark]
  exact decide_eq_decide.mpr String.codePoints_inj

end Objects

/-! ### Claims -/

section Claims

variable {limit room : ℕ} (S : Settings) (r : Request) (iat exp : ℤ)

theorem nodup_keys_claims : ((claims S r iat exp).map Prod.fst).Nodup := by
  obtain ⟨user, jti, kind⟩ := r
  cases kind <;> simp [claims, buildClaims, playbackClaims, field, String.codePoints_inj]

theorem claims_ne_nil : claims S r iat exp ≠ [] := by
  obtain ⟨user, jti, kind⟩ := r
  cases kind <;> exact List.cons_ne_nil _ _

variable {iat exp}

theorem writable_uuid (room : ℕ) (u : Uuid) : Writable room (.str u.str) :=
  JsonText.isText_of_plain fun _ => Uuid.isPlain_of_mem_str

theorem writable_text (room : ℕ) (s : String) : Writable room (text s) :=
  JsonText.isText_codePoints s

theorem writable_int (room : ℕ) {n : ℤ} (h : |n| ≤ 253402300800) : Writable room (.int n) := by
  have hlt : n.natAbs < 10 ^ 12 := by
    have habs : (n.natAbs : ℤ) ≤ 253402300800 := by rwa [Int.natCast_natAbs]
    omega
  exact ((length_decimal_le_iff (by decide)).mpr hlt).trans (by decide)

theorem writable_uuids (teamIds : List Uuid) (hroom : 0 < room) :
    Writable room (.arr (teamIds.map fun t => .str t.str)) := by
  refine ⟨hroom, JsonText.writableItems_iff.mpr fun value hv => ?_⟩
  obtain ⟨t, -, rfl⟩ := List.mem_map.mp hv
  exact writable_uuid _ t

theorem writable_field (key : String) {value : Json ℕ} (h : Writable room value) :
    IsText (field key value).1 ∧ Writable room (field key value).2 :=
  ⟨JsonText.isText_codePoints key, h⟩

theorem writable_claims (hlimit : 2 ≤ limit) (hiat : |iat| ≤ 253402300800)
    (hexp : |exp| ≤ 253402300800) :
    Writable limit (.obj (claims S r iat exp)) := by
  refine ⟨by omega, nodup_keys_claims S r iat exp, JsonText.writableFields_iff.mpr ?_⟩
  have hsv : |((r.user.sessionVersion : ℕ) : ℤ)| ≤ 253402300800 := by
    have hlt := r.user.sessionVersion_lt
    rw [Nat.abs_cast]
    omega
  have hsub := writable_field "sub" (writable_uuid (limit - 1) r.user.id)
  have hrole := writable_field "role"
    (writable_text (limit - 1) (roleValue r.user.role))
  have hversion := writable_field "sv" (writable_int (limit - 1) hsv)
  have htype := writable_field "type" (writable_text (limit - 1) r.kind.type)
  have hiss := writable_field "iss" (writable_text (limit - 1) S.jwtIssuer)
  have hiat' := writable_field "iat" (writable_int (limit - 1) hiat)
  have hexp' := writable_field "exp" (writable_int (limit - 1) hexp)
  have hjti := writable_field "jti" (writable_uuid (limit - 1) r.jti)
  have hteams (teamIds : List Uuid) := writable_field "team_ids"
    (writable_uuids teamIds (by omega : 0 < limit - 1))
  have hbuild (teamIds : List Uuid) : ∀ f ∈ buildClaims S r teamIds iat exp,
      IsText f.1 ∧ Writable (limit - 1) f.2 := by
    simp only [buildClaims, List.forall_mem_cons]
    exact ⟨hsub, hrole, hteams teamIds, hversion, htype, hiss, hiat', hexp', hjti,
      fun _ h => (List.not_mem_nil h).elim⟩
  unfold claims
  split
  · exact hbuild _
  · exact hbuild _
  · simp only [playbackClaims, List.forall_mem_cons]
    exact ⟨hsub, hrole, hversion, htype, writable_field _ (writable_text _ S.playbackTokenAudience),
      writable_field _ (writable_uuid _ _), writable_field _ (writable_uuid _ _), hiss, hiat',
      hexp', hjti, fun _ h => (List.not_mem_nil h).elim⟩

/-- The length of a text with its quotes and escapes. -/
def quotedLength (s : String) : ℕ := (writeString s.codePoints).length

/-- How long the claims of a request are as a JSON text. -/
def payloadLength (S : Settings) (r : Request) (iat exp : ℤ) : ℕ :=
  (match r.kind with
    | .access teamIds => 154 + max 2 (39 * teamIds.length + 1)
    | .refresh teamIds => 155 + max 2 (39 * teamIds.length + 1)
    | .playback .. => 241 + quotedLength S.playbackTokenAudience) +
  quotedLength (roleValue r.user.role) + (decimal r.user.sessionVersion).length +
  quotedLength S.jwtIssuer + (decimalInt iat).length + (decimalInt exp).length

theorem length_dumps_uuid (u : Uuid) : (dumps (.str u.str)).length = 38 := by
  rw [dumps, dumpsWith, JsonText.length_writeString_of_plain fun _ => Uuid.isPlain_of_mem_str,
    Uuid.length_str]

theorem length_dumps_uuids (teamIds : List Uuid) :
    (dumps (.arr (teamIds.map fun t => .str t.str))).length = max 2 (39 * teamIds.length + 1) := by
  rcases eq_or_ne teamIds [] with rfl | hne
  · rfl
  have hpos := List.length_pos_iff.mpr hne
  have hitems := JsonText.length_dumpsItemsWith
    (fun h => hne (List.map_eq_nil_iff.mp h) :
      (teamIds.map fun t => (.str t.str : Json ℕ)) ≠ [])
  have hsum : (teamIds.map fun _ => 39).sum = 39 * teamIds.length := by
    rw [List.map_const', List.sum_replicate_nat, mul_comm]
  rw [List.map_map] at hitems
  simp only [Function.comp_def, length_dumps_uuid] at hitems
  rw [hsum] at hitems
  simp only [dumps, dumpsWith, List.length_cons, List.length_append, List.length_nil]
  omega

/-- The keys of the claims, and the types, have nothing to escape. -/
theorem length_writeString_key : ∀ p ∈ [("sub", 5), ("role", 6), ("team_ids", 10), ("sv", 4),
    ("type", 6), ("iss", 5), ("iat", 5), ("exp", 5), ("jti", 5), ("aud", 5), ("vid", 5), ("tid", 5),
    ("access", 8), ("refresh", 9), ("playback", 10)],
    (writeString p.1.codePoints).length = p.2 := by
  decide

theorem sum_length_claims : 1 + ((claims S r iat exp).map fun f =>
    (writeString f.1).length + (dumps f.2).length + 2).sum = payloadLength S r iat exp := by
  obtain ⟨user, jti, kind⟩ := r
  have hkeys := length_writeString_key
  simp only [List.forall_mem_cons] at hkeys
  obtain ⟨hsub, hrole, hteams, hsv, htype, hiss, hiat, hexp, hjti, haud, hvid, htid, haccess,
    hrefresh, hplayback, -⟩ := hkeys
  have hversion : dumps (.int user.sessionVersion) = decimal user.sessionVersion := rfl
  cases kind with
  | access teamIds =>
    simp only [claims, buildClaims, payloadLength, quotedLength, field, text, Kind.type,
      List.map_cons, List.map_nil, List.sum_cons, List.sum_nil, length_dumps_uuid,
      length_dumps_uuids, hsub, hrole, hteams, hsv, htype, hiss, hiat, hexp, hjti, hversion]
    simp only [dumps, dumpsWith, haccess]
    ring
  | refresh teamIds =>
    simp only [claims, buildClaims, payloadLength, quotedLength, field, text, Kind.type,
      List.map_cons, List.map_nil, List.sum_cons, List.sum_nil, length_dumps_uuid,
      length_dumps_uuids, hsub, hrole, hteams, hsv, htype, hiss, hiat, hexp, hjti, hversion]
    simp only [dumps, dumpsWith, hrefresh]
    ring
  | playback videoId teamId =>
    simp only [claims, playbackClaims, payloadLength, quotedLength, field, text, Kind.type,
      List.map_cons, List.map_nil, List.sum_cons, List.sum_nil, length_dumps_uuid, hsub, hrole,
      hsv, htype, haud, hvid, htid, hiss, hiat, hexp, hjti, hversion]
    simp only [dumps, dumpsWith, hplayback]
    ring

end Claims

/-! ### Tokens -/

section Tokens

variable {limit : ℕ} {fields : Json.Fields ℕ} {signature : List ℕ}

theorem writable_header (hlimit : 0 < limit) : Writable limit (.obj header) := by
  refine ⟨hlimit, ?_, JsonText.writableFields_iff.mpr ?_⟩
  · simp [header, field, String.codePoints_inj]
  · simp only [header, List.forall_mem_cons]
    exact ⟨writable_field _ (writable_text _ _), writable_field _ (writable_text _ _),
      fun _ h => (List.not_mem_nil h).elim⟩

theorem dot_not_mem_segment {raw : List ℕ} (h : ∀ b ∈ raw, b < 256) : 46 ∉ b64urlEncode raw :=
  fun hdot => Bool.noConfusion (isB64urlChar_of_mem h hdot : isB64urlChar 46 = true)

theorem dot_not_mem_object (h : Writable limit (.obj fields)) : 46 ∉ jsonB64urlEncode fields :=
  dot_not_mem_segment (lt_of_mem_dumps (h.perm (sortKeys_perm fields)))

/-- A token is cut into its segments again. -/
theorem splitOn_withSignature (h : Writable limit (.obj fields))
    (hsignature : ∀ b ∈ signature, b < 256) :
    (withSignature (signingInput fields) signature).splitOn 46 =
      [jsonB64urlEncode header, jsonB64urlEncode fields, b64urlEncode signature] := by
  have hlimit : 0 < limit := h.1
  rw [withSignature, signingInput, List.splitOn_append_cons_self, List.splitOn_append_cons_self,
    List.splitOn_eq_singleton (dot_not_mem_object (writable_header hlimit)),
    List.splitOn_eq_singleton (dot_not_mem_object h),
    List.splitOn_eq_singleton (dot_not_mem_segment hsignature)]
  rfl

theorem utf8Length_of_ascii {s : List ℕ} (h : ∀ c ∈ s, c < 0x80) :
    utf8Length s = some s.length := by
  induction s with
  | nil => rfl
  | cons c rest ih =>
    have hc := h c List.mem_cons_self
    rw [utf8Length, if_neg (by omega), ih fun d hd => h d (List.mem_cons_of_mem _ hd), if_pos hc]
    rfl

theorem ascii_of_mem_segment {raw : List ℕ} (h : ∀ b ∈ raw, b < 256) {c : ℕ}
    (hc : c ∈ b64urlEncode raw) : c < 0x80 :=
  (Base64.isDigit_of_mem_urlEncode h hc).lt

theorem ascii_withSignature (h : Writable limit (.obj fields))
    (hsignature : ∀ b ∈ signature, b < 256) :
    ∀ c ∈ withSignature (signingInput fields) signature, c < 0x80 := by
  intro c hc
  have hheader := writable_header h.1
  simp only [withSignature, signingInput, List.mem_append, List.mem_cons] at hc
  rcases hc with (hc | rfl | hc) | rfl | hc
  · exact ascii_of_mem_segment (lt_of_mem_dumps (hheader.perm (sortKeys_perm header))) hc
  · decide
  · exact ascii_of_mem_segment (lt_of_mem_dumps (h.perm (sortKeys_perm fields))) hc
  · decide
  · exact ascii_of_mem_segment hsignature hc

/-- How long the token of a request is. -/
def tokenLength (K : KeyPair) (S : Settings) (r : Request) (iat exp : ℤ) : ℕ :=
  38 + (4 * payloadLength S r iat exp + 2) / 3 + (4 * K.size + 2) / 3

theorem length_header : (jsonB64urlEncode header).length = 36 := by
  have hsum : (header.map fun f =>
      (writeString f.1).length + (dumps f.2).length + 2).sum = 26 := by
    decide
  rw [length_jsonB64urlEncode (writable_header Nat.one_pos) (List.cons_ne_nil _ _), hsum]

/-- **The length of a token.** -/
theorem length_encodeRs256 (K : KeyPair) (S : Settings) (r : Request) {iat exp : ℤ}
    (h : Writable limit (.obj (claims S r iat exp))) :
    (encodeRs256 K (claims S r iat exp)).length = tokenLength K S r iat exp := by
  have hclaims := length_jsonB64urlEncode h (claims_ne_nil S r iat exp)
  rw [sum_length_claims] at hclaims
  rw [encodeRs256, withSignature, signingInput]
  simp only [List.length_append, List.length_cons]
  rw [length_header, hclaims, length_b64urlEncode (K.lt_of_mem_sign _), K.length_sign, tokenLength]
  omega

end Tokens

end NextBallUp.Tokens
