import NextBallUp.Csrf.Requests

/-!
# What the client reads

The client takes the first cookie of the document that has one of its two names, and sends what it
finds there. A token has no character that `trim`, `split` or `decodeURIComponent` would change.

## Main results

* `tokenParts_generateCsrfToken`: the parts of a token
* `readCsrfCookie_documentCookie`: **the client reads the first cookie with one of its names**
-/

namespace NextBallUp.Csrf

variable {T : DigitTable} {M : Mac} {nonce : Nonce} {issuedAt : Clock}

/-! ### Characters of tokens -/

/-- A character of a token: a digit of base64, or a dot. -/
def IsTokenChar (c : ℕ) : Prop := Base64.IsDigit c ∨ c = 46

theorem isDigit_of_mem_decimal {n c : ℕ} (h : c ∈ decimal n) : Base64.IsDigit c := by
  obtain ⟨hlow, hhigh⟩ := digit_of_mem_decimal h
  refine ⟨c + 4, by omega, ?_⟩
  rw [Base64.digit, if_neg (by omega), if_neg (by omega), if_pos (by omega)]
  omega

theorem isDigit_ne {c : ℕ} (h : Base64.IsDigit c) :
    c ≠ 37 ∧ c ≠ 46 ∧ c ≠ 59 ∧ Js.isSpace c = false := by
  obtain ⟨v, hv, rfl⟩ := h
  revert v
  decide

theorem isTokenChar_of_mem {c : ℕ} (h : c ∈ generateCsrfToken M nonce issuedAt) :
    IsTokenChar c := by
  simp only [generateCsrfToken, List.mem_append, List.mem_cons] at h
  rcases h with h | rfl | h | rfl | h
  · exact .inl (Base64.isDigit_of_mem_urlEncode nonce.lt_of_mem h)
  · exact .inr rfl
  · exact .inl (Base64.isDigit_of_mem_urlEncode (M.lt_of_mem_digest _) h)
  · exact .inr rfl
  · exact .inl (isDigit_of_mem_decimal h)

theorem IsTokenChar.ne {c : ℕ} (h : IsTokenChar c) : c ≠ 37 ∧ Js.isSpace c = false := by
  rcases h with h | rfl
  · exact ⟨(isDigit_ne h).1, (isDigit_ne h).2.2.2⟩
  · decide

theorem generateCsrfToken_ne_nil : generateCsrfToken M nonce issuedAt ≠ [] := by
  unfold generateCsrfToken
  exact List.append_ne_nil_of_right_ne_nil _ (List.cons_ne_nil _ _)

/-! ### Parts of tokens -/

theorem b64urlDecode_encode {data : List ℕ} (h : ∀ b ∈ data, b < 256) :
    b64urlDecode (b64urlEncode data) = some data :=
  Base64.decode_pad_urlEncode h

/-- **A token is taken apart** into its nonce, its signature and its issue time. -/
theorem tokenParts_generateCsrfToken :
    tokenParts T (generateCsrfToken M nonce issuedAt) =
      some (nonce.bytes, M.digest (nonce.bytes ++ bigEndian 8 issuedAt.seconds),
        (issuedAt.seconds : ℤ)) := by
  have hnonce : 46 ∉ b64urlEncode nonce.bytes := fun h =>
    (isDigit_ne (Base64.isDigit_of_mem_urlEncode nonce.lt_of_mem h)).2.1 rfl
  have hsig : 46 ∉ b64urlEncode (M.digest (nonce.bytes ++ bigEndian 8 issuedAt.seconds)) :=
    fun h => (isDigit_ne (Base64.isDigit_of_mem_urlEncode (M.lt_of_mem_digest _) h)).2.1 rfl
  have htime : 46 ∉ decimal issuedAt.seconds := fun h =>
    (isDigit_ne (isDigit_of_mem_decimal h)).2.1 rfl
  have hlen : (decimal issuedAt.seconds).length ≤ 4300 := by
    have hlt : issuedAt.seconds < 10 ^ 19 := issuedAt.seconds_lt.trans (by decide)
    exact ((length_decimal_le_iff (by decide)).mpr hlt).trans (by decide)
  rw [tokenParts, generateCsrfToken, List.splitOn_append_cons_self_of_not_mem hnonce,
    List.splitOn_append_cons_self_of_not_mem hsig, List.splitOn_eq_singleton htime]
  show (do
    let nonce' ← b64urlDecode (b64urlEncode nonce.bytes)
    let providedSig ← b64urlDecode (b64urlEncode _)
    let issuedAt' ← T.readInt (decimal issuedAt.seconds)
    return (nonce', providedSig, issuedAt') : Option (List ℕ × List ℕ × ℤ)) = _
  rw [b64urlDecode_encode nonce.lt_of_mem, b64urlDecode_encode (M.lt_of_mem_digest _),
    T.readInt_decimal hlen]
  rfl

/-! ### Lists of cookies -/

/-- A text of cookies is cut at the semicolons. -/
theorem splitOn_intercalate_semicolon {text : List ℕ} {texts : List (List ℕ)}
    (h : ∀ t ∈ text :: texts, 59 ∉ t) :
    ([59, 32].intercalate (text :: texts)).splitOn 59 = text :: texts.map (32 :: ·) := by
  induction texts generalizing text with
  | nil =>
    rw [List.intercalate_singleton, List.splitOn_eq_singleton (h text List.mem_cons_self)]
    rfl
  | cons next texts ih =>
    have hnext : ∀ t ∈ (32 :: next) :: texts, 59 ∉ t := by
      intro t ht
      rcases List.mem_cons.mp ht with rfl | ht
      · intro hmem
        rcases List.mem_cons.mp hmem with hc | hc
        · cases hc
        · exact h next (List.mem_cons_of_mem _ List.mem_cons_self) hc
      · exact h t (List.mem_cons_of_mem _ (List.mem_cons_of_mem _ ht))
    have hjoin : [59, 32].intercalate (text :: next :: texts) =
        text ++ 59 :: [59, 32].intercalate ((32 :: next) :: texts) := by
      cases texts with
      | nil => simp [List.intercalate]
      | cons t texts => simp [List.intercalate]
    rw [hjoin, List.splitOn_append_cons_self_of_not_mem (h text List.mem_cons_self), ih hnext]
    rfl

theorem rdropWhile_append_cons {p : ℕ → Bool} {l value : List ℕ} {c : ℕ} (hc : p c = false) :
    (l ++ c :: value).rdropWhile p = l ++ c :: value.rdropWhile p := by
  induction value using List.reverseRecOn with
  | nil => rw [List.rdropWhile_concat_neg _ _ _ (by rw [hc]; exact Bool.false_ne_true),
      List.rdropWhile_nil]
  | append_singleton value d ih =>
    have hassoc : l ++ c :: (value ++ [d]) = (l ++ c :: value) ++ [d] := by simp
    rw [hassoc]
    cases hd : p d with
    | true => rw [List.rdropWhile_concat_pos _ _ _ hd, List.rdropWhile_concat_pos _ _ _ hd, ih]
    | false =>
      rw [List.rdropWhile_concat_neg _ _ _ (by rw [hd]; exact Bool.false_ne_true),
        List.rdropWhile_concat_neg _ _ _ (by rw [hd]; exact Bool.false_ne_true), hassoc]

theorem dropWhile_name {cookie : Cookie} (rest : List ℕ) :
    (cookie.name.codePoints ++ rest).dropWhile Js.isSpace = cookie.name.codePoints ++ rest := by
  have hhead := cookie.name_head
  cases hn : cookie.name.codePoints with
  | nil => exact (cookie.name_ne hn).elim
  | cons c name =>
    rw [hn] at hhead
    rw [List.cons_append, List.dropWhile_cons_of_neg]
    rw [hhead c rfl]
    exact Bool.false_ne_true

/-- A chunk is cut into the name and the value, which loses blanks at its end. -/
theorem splitOn_trim_chunk {cookie : Cookie} {chunk : List ℕ}
    (h : chunk = cookie.text ∨ chunk = 32 :: cookie.text) :
    (Js.trim chunk).splitOn 61 =
      cookie.name.codePoints :: (cookie.value.rdropWhile Js.isSpace).splitOn 61 := by
  have htrim : Js.trim chunk =
      cookie.name.codePoints ++ 61 :: cookie.value.rdropWhile Js.isSpace := by
    have hdrop : chunk.dropWhile Js.isSpace = cookie.text := by
      rcases h with rfl | rfl
      · exact dropWhile_name _
      · rw [List.dropWhile_cons_of_pos (by decide)]
        exact dropWhile_name _
    rw [Js.trim, hdrop, Cookie.text, rdropWhile_append_cons (by decide)]
  rw [htrim, List.splitOn_append_cons_self_of_not_mem cookie.name_ok.2]

/-- The client takes the cookie for the token. -/
def Cookie.IsOfClient (cookie : Cookie) : Prop := cookie.name ∈ csrfCookieNamesOfClient

instance (cookie : Cookie) : Decidable cookie.IsOfClient :=
  inferInstanceAs (Decidable (cookie.name ∈ csrfCookieNamesOfClient))

/-- The value is read as it is. -/
def IsPlain (value : List ℕ) : Prop := value ≠ [] ∧ ∀ c ∈ value, c ≠ 37 ∧ Js.isSpace c = false

theorem isPlain_generateCsrfToken : IsPlain (generateCsrfToken M nonce issuedAt) :=
  ⟨generateCsrfToken_ne_nil, fun _ h => (isTokenChar_of_mem h).ne⟩

theorem IsPlain.rdropWhile {value : List ℕ} (h : IsPlain value) :
    value.rdropWhile Js.isSpace = value :=
  List.rdropWhile_eq_self_iff.mpr fun hne => by
    rw [(h.2 _ (List.getLast_mem hne)).2]
    exact Bool.false_ne_true

theorem IsPlain.decodeURIComponent {value : List ℕ} (h : IsPlain value) :
    Js.decodeURIComponent value = some value :=
  Js.decodeURIComponent_of_not_mem fun hmem => (h.2 37 hmem).1 rfl

theorem readChunks_cons {cookie : Cookie} {chunk : List ℕ} (chunks : List (List ℕ))
    (h : chunk = cookie.text ∨ chunk = 32 :: cookie.text)
    (hplain : cookie.IsOfClient → IsPlain cookie.value) :
    readChunks (chunk :: chunks) =
      if cookie.IsOfClient then some (some cookie.value) else readChunks chunks := by
  have hiff : (cookie.name.codePoints ≠ [] ∧
      ∃ name ∈ csrfCookieNamesOfClient, name.codePoints = cookie.name.codePoints) ↔
        cookie.IsOfClient := by
    constructor
    · rintro ⟨-, name, hmem, hname⟩
      rwa [Cookie.IsOfClient, ← String.codePoints_inj.mp hname]
    · intro hmem
      exact ⟨cookie.name_ne, cookie.name, hmem, rfl⟩
  have hjoin : [61].intercalate ((cookie.value.rdropWhile Js.isSpace).splitOn 61) =
      cookie.value.rdropWhile Js.isSpace :=
    List.intercalate_splitOn 61
  rw [readChunks, splitOn_trim_chunk h]
  cases hs : (cookie.value.rdropWhile Js.isSpace).splitOn 61 with
  | nil => exact (List.splitOn_ne_nil 61 _ hs).elim
  | cons part rest =>
    rw [hs] at hjoin
    dsimp only
    rw [hjoin]
    by_cases hclient : cookie.IsOfClient
    · have hvalue := hplain hclient
      rw [if_pos (hiff.mpr hclient), hvalue.rdropWhile, if_pos hvalue.1, hvalue.decodeURIComponent,
        if_pos hclient]
      rfl
    · rw [if_neg (fun hc => hclient (hiff.mp hc)), if_neg hclient]

theorem readChunks_map {cookies : List Cookie} (f : Cookie → List ℕ)
    (hf : ∀ cookie, f cookie = cookie.text ∨ f cookie = 32 :: cookie.text)
    (hplain : ∀ cookie ∈ cookies, cookie.IsOfClient → IsPlain cookie.value) :
    readChunks (cookies.map f) =
      some ((cookies.find? fun cookie => cookie.IsOfClient).map Cookie.value) := by
  induction cookies with
  | nil => rfl
  | cons cookie rest ih =>
    rw [List.map_cons, readChunks_cons _ (hf cookie) (hplain cookie List.mem_cons_self),
      ih fun c hc => hplain c (List.mem_cons_of_mem _ hc), List.find?_cons]
    by_cases hclient : cookie.IsOfClient
    · rw [if_pos hclient, decide_eq_true hclient]
      rfl
    · rw [if_neg hclient, decide_eq_false hclient]

/-- **The client reads the first cookie with one of its names** that it is allowed to see. -/
theorem readCsrfCookie_documentCookie {jar : List Cookie}
    (hplain : ∀ cookie ∈ jar, cookie.IsOfClient → IsPlain cookie.value) :
    readCsrfCookie (documentCookie jar) =
      some (((jar.filter fun cookie => !cookie.httpOnly).find? fun cookie =>
        cookie.IsOfClient).map Cookie.value) := by
  have hvisible : ∀ cookie ∈ jar.filter fun cookie => !cookie.httpOnly,
      cookie.IsOfClient → IsPlain cookie.value := fun cookie hc =>
    hplain cookie (List.mem_filter.mp hc).1
  rw [readCsrfCookie, documentCookie]
  cases hv : jar.filter fun cookie => !cookie.httpOnly with
  | nil => rfl
  | cons cookie rest =>
    rw [hv] at hvisible
    have htext : ∀ t ∈ cookie.text :: rest.map Cookie.text, 59 ∉ t := by
      intro t ht
      obtain ⟨c, -, rfl⟩ := List.mem_map.mp (by rwa [← List.map_cons] at ht)
      intro hmem
      rcases List.mem_append.mp hmem with hname | hvalue
      · exact c.name_ok.1 hname
      · rcases List.mem_cons.mp hvalue with hc | hvalue
        · cases hc
        · exact c.value_ok hvalue
    have hsplit := splitOn_intercalate_semicolon htext
    have hne : [59, 32].intercalate (cookie.text :: rest.map Cookie.text) ≠ [] := by
      intro he
      rw [he] at hsplit
      have hcons := (List.cons.inj hsplit).1
      exact List.append_ne_nil_of_right_ne_nil _ (List.cons_ne_nil _ _) hcons.symm
    rw [List.map_cons, if_neg hne, hsplit, List.map_map]
    rw [readChunks_cons _ (.inl rfl) (hvisible cookie List.mem_cons_self),
      readChunks_map ((32 :: ·) ∘ Cookie.text) (fun _ => .inr rfl)
        fun c hc => hvisible c (List.mem_cons_of_mem _ hc), List.find?_cons]
    by_cases hclient : cookie.IsOfClient
    · rw [if_pos hclient, decide_eq_true hclient]
      rfl
    · rw [if_neg hclient, decide_eq_false hclient]

end NextBallUp.Csrf
