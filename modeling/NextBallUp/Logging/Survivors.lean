import NextBallUp.Logging.Idempotence
import NextBallUp.Logging.Secrets

/-!
# What is left of a secret

The patterns are followed one after the other, with a secret that stands between two edges. The
first three take tokens and keys. Of a secret, the pattern of the bearer tokens keeps some
characters; if these are not all of a token or a key, one of them is left by the next two patterns
as well, since what they take ends and begins at boundaries of words.

## Main results

* `exists_mem_accessKey_sub`, `exists_mem_jwt_sub`: **of a secret that is no token and no key**,
  something is left
* `exists_mem_redactTokens`: and something is left of what the bearer tokens leave of it
-/

namespace NextBallUp.Logging

section Survivors

variable {χ : Type} [Writable χ] {W : WordTable} {prev : Option χ} {text x y secret : List χ}
  {m : Match χ} {c : χ}

/-! ### Edges -/

theorem not_isJwtChar_of_isEdge {n : ℕ} (h : IsEdge W n) : isJwtChar n = false := by
  refine Bool.eq_false_iff.mpr fun hn => ?_
  have hword := isWord_of_isJwtChar (W := W) hn h.2.1
  exact Bool.false_ne_true (h.1.symm.trans hword)

theorem isJwtChar_of_isKeyChar {n : ℕ} (h : isKeyChar n = true) : isJwtChar n = true := by
  simp only [isKeyChar, Bool.or_eq_true] at h
  simp only [isJwtChar, isAlnum, Bool.or_eq_true]
  exact .inl (.inl (h.imp_left .inl))

theorem isTokenChar_of_isJwtChar {n : ℕ} (h : isJwtChar n = true) : isTokenChar n = true := by
  simp only [isJwtChar, Bool.or_eq_true, decide_eq_true_eq] at h
  rcases h with (h | rfl) | rfl
  · simp only [isTokenChar, h, Bool.true_or]
  · rfl
  · rfl

theorem jwt_avoids {n : ℕ} (hn : isJwtChar n = false) (hdot : n ≠ 46) :
    jwtPattern.avoids n = true := by
  have hne : n ≠ 101 ∧ n ≠ 121 ∧ n ≠ 74 := by
    refine ⟨?_, ?_, ?_⟩
    all_goals
      rintro rfl
      cases hn
  simp [jwtPattern, exactly, codePoints_eyJ, codePoints_dot, Regex.text, Regex.oneOrMore,
    Regex.avoids, hn, hne, hdot]

theorem accessKey_avoids {n : ℕ} (hn : isKeyChar n = false) : accessKeyPattern.avoids n = true := by
  have hne : n ≠ 65 ∧ n ≠ 75 ∧ n ≠ 73 ∧ n ≠ 83 := by
    refine ⟨?_, ?_, ?_, ?_⟩
    all_goals
      rintro rfl
      cases hn
  simp [accessKeyPattern, exactly, codePoints_akia, codePoints_asia, Regex.text, Regex.times,
    Regex.avoids, hn, hne]

theorem isJwtChar_or_of_mem (h : (jwt W).find prev text = some m) (hc : c ∈ m.taken) :
    Regex.isIn isJwtChar c = true ∨ HasCode.code c = 46 := by
  by_contra hnot
  obtain ⟨hn, hdot⟩ := not_or.mp hnot
  exact Regex.code_ne_of_matches (jwt_avoids (Bool.eq_false_iff.mpr hn) hdot)
    (Regex.matches_of_first h).2 c hc rfl

theorem isKeyChar_of_mem (h : (accessKey W).find prev text = some m) (hc : c ∈ m.taken) :
    Regex.isIn isKeyChar c = true := by
  by_contra hn
  exact Regex.code_ne_of_matches (accessKey_avoids (Bool.eq_false_iff.mpr hn))
    (Regex.matches_of_first h).2 c hc rfl

theorem not_isIn_isJwtChar (h : IsEdge W (HasCode.code c)) :
    ¬ (Regex.isIn isJwtChar c = true ∨ HasCode.code c = 46) :=
  not_or.mpr ⟨Bool.eq_false_iff.mp (not_isJwtChar_of_isEdge h), h.2.2⟩

theorem not_isIn_isKeyChar (h : IsEdge W (HasCode.code c)) : ¬ Regex.isIn isKeyChar c = true :=
  fun hc => (not_isIn_isJwtChar h) (.inl (isJwtChar_of_isKeyChar hc))

theorem isEdge_bracket (W : WordTable) : IsEdge W 91 ∧ IsEdge W 93 :=
  ⟨isEdge_of_ascii (by decide) (by decide), isEdge_of_ascii (by decide) (by decide)⟩

theorem isWordAt_of_edge {z : Option χ} (h : ∀ c ∈ z, IsEdge W (HasCode.code c)) :
    Regex.isWordAt W.isWord z = false := by
  cases z with
  | none => rfl
  | some c => exact (h c rfl).1

/-- What a pass makes of a text that ends at an edge ends at an edge. -/
theorem IsApart.edge_subBefore {P : Pass χ} (hP : IsApart W P) (hstops : P.Stops prev text y)
    (hedge : ∀ c ∈ text.getLast?, IsEdge W (HasCode.code c)) :
    ∀ c ∈ (P.subBefore y 0 prev text).getLast?, IsEdge W (HasCode.code c) := by
  rcases Pass.getLast?_subBefore_of_stops hstops with rfl | ⟨x, z, d, rfl, hz⟩ |
    ⟨-, -, m, z, hm, -, -, hz⟩
  · exact fun c hc => by cases hc
  · rw [List.getLast?_concat] at hedge
    rw [hz, List.getLast?_concat]
    exact hedge
  · rw [hz, hP.write, List.getLast?_append, getLast?_redacted]
    intro c hc
    obtain rfl : Writable.ofCode 93 = c := Option.some.inj hc
    rw [Writable.code_ofCode]
    exact (isEdge_bracket W).2

theorem IsApart.find_eq_none {P : Pass χ} (hP : IsApart W P) (hc : IsEdge W (HasCode.code c)) :
    P.find prev (c :: text) = none := by
  by_contra hfind
  obtain ⟨m, hm⟩ := Option.ne_none_iff_exists'.mp hfind
  obtain ⟨t, ht⟩ := Pass.exists_of_find_cons hm
  have halnum := hP.head hm _ (by rw [ht]; rfl)
  exact Bool.false_ne_true (hc.1.symm.trans (isWord_of_isAlnum halnum))

/-- So does what it makes of a text that begins at an edge. -/
theorem IsApart.edge_sub {P : Pass χ} (hP : IsApart W P)
    (hedge : ∀ c ∈ text.head?, IsEdge W (HasCode.code c)) :
    ∀ c ∈ (P.sub prev text).head?, IsEdge W (HasCode.code c) := by
  cases text with
  | nil => exact hedge
  | cons d text =>
    rw [Pass.sub_cons (hP.find_eq_none (hedge d rfl))]
    exact fun c hc => Option.some.inj hc ▸ hedge d rfl

theorem IsApart.sub_congr {P : Pass χ} (hP : IsApart W P)
    (hedge : ∀ c ∈ text.head?, IsEdge W (HasCode.code c)) (prev prev' : Option χ) :
    P.sub prev text = P.sub prev' text := by
  cases text with
  | nil => rfl
  | cons d text =>
    rw [Pass.sub_cons (hP.find_eq_none (hedge d rfl)),
      Pass.sub_cons (hP.find_eq_none (hedge d rfl))]

theorem jwt_stops (hedge : ∀ c ∈ x.getLast?, IsEdge W (HasCode.code c)) :
    (jwt W).Stops prev x y := by
  rcases List.eq_nil_or_concat' x with rfl | ⟨x, c, rfl⟩
  · rfl
  · rw [List.getLast?_concat] at hedge
    exact Pass.stops_concat (fun _ _ _ h _ hc => isJwtChar_or_of_mem h hc)
      (not_isIn_isJwtChar (hedge c rfl))

theorem jwt_stops_of_head (hedge : ∀ c ∈ y.head?, IsEdge W (HasCode.code c)) :
    (jwt W).Stops prev x y :=
  Pass.stops_of_head (fun _ _ _ h _ hc => isJwtChar_or_of_mem h hc)
    fun c hc => not_isIn_isJwtChar (hedge c hc)

theorem accessKey_stops (hedge : ∀ c ∈ x.getLast?, IsEdge W (HasCode.code c)) :
    (accessKey W).Stops prev x y := by
  rcases List.eq_nil_or_concat' x with rfl | ⟨x, c, rfl⟩
  · rfl
  · rw [List.getLast?_concat] at hedge
    exact Pass.stops_concat (fun _ _ _ h _ hc => isKeyChar_of_mem h hc)
      (not_isIn_isKeyChar (hedge c rfl))

theorem accessKey_stops_of_head (hedge : ∀ c ∈ y.head?, IsEdge W (HasCode.code c)) :
    (accessKey W).Stops prev x y :=
  Pass.stops_of_head (fun _ _ _ h _ hc => isKeyChar_of_mem h hc)
    fun c hc => not_isIn_isKeyChar (hedge c hc)

/-! ### Tokens and keys -/

/-- A key does not begin where another one ends. -/
theorem accessKey_find_rest (h : (accessKey W).find prev text = some m) :
    (accessKey W).find m.taken.getLast? m.rest = none := by
  by_contra hfind
  obtain ⟨m', hm'⟩ := Option.ne_none_iff_exists'.mp hfind
  exact Bool.false_ne_true ((accessKey_of_find hm').1.symm.trans (accessKey_of_find h).2.1.last)

/-- A token begins with a word, which ends at a character that could be in it, or at a dot. -/
theorem IsJwt.exists_word (h : IsJwt text) (rest : List χ) : ∃ v z, text ++ rest = v ++ z ∧ v ≠ [] ∧
    (∀ c ∈ v, Regex.isIn isJwtChar c = true) ∧
    Regex.isWordAt W.isWord v.getLast? ≠ Regex.isWordAt W.isWord z.head? := by
  obtain ⟨b, h', p, t, d, d', rfl, hb, hd, -, hh, -⟩ := h
  rw [codePoints_eyJ] at hb
  rw [codePoints_dot] at hd
  obtain ⟨e, u, he, -, rfl⟩ := List.forall₂_cons_left_iff.mp hd
  have hdot : HasCode.code e = 46 := decide_eq_true_iff.mp he
  have hjwt : ∀ c ∈ b ++ h', Regex.isIn isJwtChar c = true := by
    intro c hc
    rcases List.mem_append.mp hc with hc | hc
    · obtain ⟨n, hn, hcode⟩ := hb.mem hc
      have hcode : HasCode.code c = n := decide_eq_true_iff.mp hcode
      rw [Regex.isIn, hcode]
      exact (by decide : ∀ n ∈ [101, 121, 74], isJwtChar n = true) n hn
    · exact hh.2 c hc
  let isWord : χ → Bool := fun c => W.isWord (HasCode.code c)
  have hne : (b ++ h').takeWhile isWord ≠ [] := by
    obtain ⟨c, _, hc, -, rfl⟩ := List.forall₂_cons_left_iff.mp hb
    have hcode : HasCode.code c = 101 := decide_eq_true_iff.mp hc
    have hword : isWord c = true := by
      rw [show isWord c = W.isWord (HasCode.code c) from rfl, hcode, W.ascii 101 (by decide)]
      rfl
    rw [List.cons_append, List.takeWhile_cons_of_pos hword]
    exact List.cons_ne_nil _ _
  refine ⟨(b ++ h').takeWhile isWord, (b ++ h').dropWhile isWord ++
    (e :: u ++ (p ++ (d' ++ t)) ++ rest), ?_, hne,
    fun c hc => hjwt c ((List.takeWhile_prefix _).subset hc), ?_⟩
  · rw [← List.append_assoc (List.takeWhile _ _), List.takeWhile_append_dropWhile]
    simp
  · have hlast : Regex.isWordAt W.isWord ((b ++ h').takeWhile isWord).getLast? = true := by
      have hword : isWord (((b ++ h').takeWhile isWord).getLast hne) = true :=
        List.mem_takeWhile_imp (List.getLast_mem hne)
      rw [List.getLast?_eq_getLast_of_ne_nil hne]
      exact hword
    rw [hlast]
    refine (Bool.eq_false_iff.mp ?_).symm
    cases hdrop : (b ++ h').dropWhile isWord with
    | nil =>
      refine show W.isWord (HasCode.code e) = false from ?_
      rw [hdot, W.ascii 46 (by decide)]
      rfl
    | cons c l =>
      have hnot := List.head?_dropWhile_not isWord (b ++ h')
      rw [hdrop] at hnot
      exact hnot

/-- A token does not begin where another one ends: that one would have gone on. -/
theorem jwt_find_rest (h : (jwt W).find prev text = some m) :
    (jwt W).find m.taken.getLast? m.rest = none := by
  by_contra hfind
  obtain ⟨m', hm'⟩ := Option.ne_none_iff_exists'.mp hfind
  obtain ⟨hprev, htaken, -⟩ := jwt_of_find hm'
  obtain ⟨v, z, hrest, hne, hv, hend⟩ := htaken.exists_word (W := W) m'.rest
  have hsame := isWordAt_of_jwt_find h hne hv ((Pass.taken_append_rest _ hm').symm.trans hrest)
  exact hend hsame

/-- **Of a secret that is no key** something is left by the pattern of the keys. -/
theorem exists_mem_accessKey_sub (hx : ∀ c ∈ x.getLast?, IsEdge W (HasCode.code c))
    (hy : ∀ c ∈ y.head?, IsEdge W (HasCode.code c)) (hne : secret ≠ [])
    (hkey : ¬ IsAccessKey secret) :
    ∃ c ∈ (accessKey W).sub none (x ++ (secret ++ y)), c ∈ secret := by
  obtain ⟨c, hc⟩ : ∃ c,
      c ∈ (accessKey W : Pass χ).erase.subBefore y 0 (x.getLast?.or none) secret := by
    refine List.exists_mem_of_ne_nil _ fun hnil => hkey ?_
    obtain ⟨m, hm, htaken, -⟩ := Pass.find_of_kept_eq_nil (accessKey_stops_of_head hy) hne hnil
      fun _ _ _ h => accessKey_find_rest h
    exact htaken ▸ (accessKey_of_find hm).2.1
  refine ⟨c, ?_, Pass.mem_of_mem_kept hc⟩
  rw [Pass.sub_append (accessKey_stops hx), Pass.sub_append (accessKey_stops_of_head hy)]
  exact List.mem_append_right _ (List.mem_append_left _ (Pass.mem_kept_of_mem_subBefore hc))

/-- A character that is not in a key is left by the pattern of the keys. -/
theorem mem_accessKey_sub (hc : c ∈ text) (hkey : ¬ Regex.isIn isKeyChar c = true) :
    c ∈ (accessKey W).sub prev text :=
  Pass.mem_sub_of_mem hc fun _ _ _ h hmem => (hkey (isKeyChar_of_mem h hmem)).elim

theorem isWord_of_isKeyChar {n : ℕ} (h : isKeyChar n = true) : W.isWord n = true := by
  simp only [isKeyChar, Bool.or_eq_true] at h
  refine isWord_of_isAlnum ?_
  simp only [isAlnum, Bool.or_eq_true]
  exact h.imp_left .inl

theorem not_isKeyChar_of_not_isWord (hc : Regex.isWordAt W.isWord (some c) = false) :
    ¬ Regex.isIn isKeyChar c = true := fun hkey =>
  Bool.false_ne_true (hc.symm.trans (isWord_of_isKeyChar hkey))

/-- A key does not begin behind a token that was taken: the token would have gone on. -/
theorem mem_accessKey_sub_of_rest {z u : List χ} (h : (jwt W).find prev text = some m)
    (hrest : m.rest = c :: u) :
    c ∈ (accessKey W).sub none (z ++ redacted ++ c :: (jwt W).sub (some c) u) := by
  rcases (accessKey W).kept_or_taken none (z ++ redacted) c ((jwt W).sub (some c) u) with
    ⟨-, hsub⟩ | ⟨x₀, x₁, t, m', hz, htaken, hout, -, hm'⟩
  · rw [hsub]
    exact List.mem_append_right _ List.mem_cons_self
  exfalso
  have hkeys : ∀ c ∈ m'.taken, Regex.isIn isKeyChar c = true := fun c hc => isKeyChar_of_mem hm' hc
  have hx₁ : x₁ = [] := by
    rcases List.eq_nil_or_concat' x₁ with hnil | ⟨x₁, e, rfl⟩
    · exact hnil
    have hlast := congrArg List.getLast? hz
    rw [← List.append_assoc, List.getLast?_concat, List.getLast?_append, getLast?_redacted] at hlast
    have hkey := hkeys e (by rw [htaken]; simp)
    rw [← Option.some.inj hlast, Regex.isIn, Writable.code_ofCode] at hkey
    cases hkey
  subst hx₁
  rw [List.nil_append] at htaken
  -- the key is in the text before as well
  have hbracket : (Writable.ofCode 91 : χ) ∉ t := by
    intro hmem
    have hkey := hkeys _ (by rw [htaken]; exact List.mem_cons_of_mem c hmem)
    rw [Regex.isIn, Writable.code_ofCode] at hkey
    cases hkey
  obtain ⟨v, rfl, -, hv⟩ :=
    Pass.exists_of_sub_eq_append (fun _ _ _ _ => head?_redacted) hbracket hout
  have hlast : Regex.isWordAt W.isWord (c :: t).getLast? = true := by
    rw [← htaken]
    exact (accessKey_of_find hm').2.1.last
  have hnext := isWordAt_of_jwt_find h (List.cons_ne_nil c t)
    (fun d hd => isJwtChar_of_isKeyChar (hkeys d (htaken ▸ hd))) hrest
  rw [hlast] at hnext
  have hend := (accessKey_of_find hm').2.2
  rw [← hv] at hend
  cases v with
  | nil => cases hnext
  | cons e v =>
    cases hfind : (jwt W).find (t.getLast?.or (some c)) (e :: v) with
    | none =>
      rw [Pass.sub_cons hfind] at hend
      exact Bool.false_ne_true (hend.symm.trans hnext.symm)
    | some m'' =>
      have hprev := (jwt_of_find hfind).1
      rw [← Regex.getLast?_cons_eq_or, hlast] at hprev
      cases hprev

/-- **Of a secret that is no token and no key** something is left by the patterns of both. -/
theorem exists_mem_jwt_sub (hx : ∀ c ∈ x.getLast?, IsEdge W (HasCode.code c))
    (hy : ∀ c ∈ y.head?, IsEdge W (HasCode.code c)) (hne : secret ≠ [])
    (hknown : ¬ IsKnown W secret) :
    ∃ c ∈ (accessKey W).sub none ((jwt W).sub none (x ++ (secret ++ y))), c ∈ secret := by
  let x' := (jwt W).subBefore (secret ++ y) 0 none x
  have hx' : ∀ c ∈ x'.getLast?, IsEdge W (HasCode.code c) :=
    jwt_isApart.edge_subBefore (jwt_stops hx) hx
  have hsub : (jwt W).sub none (x ++ (secret ++ y)) = x' ++
      ((jwt W).subBefore y 0 (x.getLast?.or none) secret ++
        (jwt W).sub (secret.getLast?.or (x.getLast?.or none)) y) := by
    rw [Pass.sub_append (jwt_stops hx), Pass.sub_append (jwt_stops_of_head hy)]
  rw [hsub]
  rcases (jwt W).kept_cases 0 (x.getLast?.or none) secret y with hnil | ⟨-, hmiss⟩ |
    ⟨z, c, u, hz, hc, hbeside⟩
  · refine (hknown (.inl ?_)).elim
    obtain ⟨m, hm, htaken, hrest⟩ := Pass.find_of_kept_eq_nil (jwt_stops_of_head hy) hne hnil
      fun _ _ _ h => jwt_find_rest h
    obtain ⟨-, hjwt, hend⟩ := jwt_of_find hm
    rw [htaken, hrest, isWordAt_of_edge hy] at hend
    exact ⟨htaken ▸ hjwt, by simpa using hend⟩
  · rw [hmiss.subBefore_eq]
    exact exists_mem_accessKey_sub hx' (jwt_isApart.edge_sub hy) hne fun hkey => hknown (.inr hkey)
  · refine ⟨c, ?_, Pass.mem_of_mem_kept hc⟩
    rw [hz]
    rcases hbeside with ⟨-, hzero, -⟩ | ⟨z', _, _, m, rfl, hm, hrest⟩ | ⟨d, u', m, -, hm⟩
    · exact (hzero rfl).elim
    · have htail : (jwt W).sub (some c) (u ++ y) = (jwt W).subBefore y 0 (some c) u ++
          (jwt W).sub (secret.getLast?.or (x.getLast?.or none)) y := by
        rw [Pass.sub_append (jwt_stops_of_head hy)]
        exact congrArg _ (jwt_isApart.sub_congr hy _ _)
      have hrest' : m.rest = c :: (u ++ y) := hrest
      have hmem := mem_accessKey_sub_of_rest (z := x' ++ z') hm hrest'
      rw [htail] at hmem
      simpa [show (jwt W).write m = redacted from rfl] using hmem
    · exact mem_accessKey_sub (by simp) (not_isKeyChar_of_not_isWord (jwt_of_find hm).1)

/-! ### Bearer tokens -/

variable (W) in
/-- The first three patterns, one after the other. -/
def redactTokens (text : List χ) : List χ :=
  (accessKey W).sub none ((jwt W).sub none ((bearer W).sub none text))

/-- A token does not end before a block where no word ends. -/
theorem mem_jwt_sub_of_redacted {z u : List χ} (hc : Regex.isWordAt W.isWord (some c) = false) :
    c ∈ (jwt W).sub none (z ++ c :: (redacted ++ u)) := by
  rcases (jwt W).kept_or_taken none z c (redacted ++ u) with
    ⟨-, hsub⟩ | ⟨x₀, x₁, t, m, -, htaken, hout, -, hm⟩
  · rw [hsub]
    exact List.mem_append_right _ List.mem_cons_self
  exfalso
  obtain ⟨b, hb⟩ := List.head?_eq_some_iff.mp (head?_redacted (χ := χ))
  cases t with
  | nil =>
    have hend := (jwt_of_find hm).2.2
    have hrest : m.rest.head? = some (Writable.ofCode 91) := by
      rw [← List.nil_append m.rest, ← hout, hb]
      rfl
    have hopen : Regex.isWordAt W.isWord (some (Writable.ofCode 91 : χ)) = false := by
      refine isWordAt_of_edge fun d hd => ?_
      rw [← Option.some.inj hd, Writable.code_ofCode]
      exact (isEdge_bracket W).1
    rw [htaken, List.getLast?_concat, hrest, hc, hopen] at hend
    exact hend rfl
  | cons e t =>
    rw [hb] at hout
    obtain ⟨rfl, -⟩ := List.cons.inj hout
    refine (jwt_isApart.brackets hm (Writable.ofCode 91) ?_).1 (Writable.code_ofCode _)
    rw [htaken]
    exact List.mem_append_right _ (List.mem_cons_of_mem c List.mem_cons_self)

theorem mem_redactTokens (hc : c ∈ (bearer W).sub none text)
    (htoken : ¬ Regex.isIn isTokenChar c = true) : c ∈ redactTokens W text := by
  have hjwt : ¬ Regex.isIn isJwtChar c = true := fun h => htoken (isTokenChar_of_isJwtChar h)
  refine mem_accessKey_sub (Pass.mem_sub_of_mem hc fun _ _ _ h hmem => ?_)
    fun hkey => hjwt (isJwtChar_of_isKeyChar hkey)
  rcases isJwtChar_or_of_mem h hmem with hchar | hdot
  · exact (hjwt hchar).elim
  · refine (htoken ?_).elim
    rw [Regex.isIn, hdot]
    rfl

/-- **Of what the bearer tokens leave of a secret** something is left by the next patterns as well,
if it is not all of a token or a key. -/
theorem exists_mem_redactTokens (hx : ∀ c ∈ x.getLast?, IsEdge W (HasCode.code c))
    (hy : ∀ c ∈ y.head?, IsEdge W (HasCode.code c))
    (hkept : (bearer W).kept x secret y ≠ [])
    (hknown : ¬ ((bearer W).kept x secret y = secret ∧ IsKnown W secret)) :
    ∃ c ∈ redactTokens W (x ++ (secret ++ y)), c ∈ secret := by
  have hsub := (bearer W).sub_parts x secret y
  have hpending := (bearer W).exists_of_pending none x (secret ++ y)
  rw [Pass.kept] at hkept hknown
  generalize hn : (bearer W).pending (secret ++ y) 0 none x = n at hsub hkept hknown hpending
  -- behind a bearer token comes nothing that could be in another token
  have hmem : ∀ c, c ∈ (bearer W).erase.subBefore y n x.getLast? secret →
      (∃ m prev text u, (bearer W).find prev text = some m ∧ m.rest = c :: u) →
        ∃ c ∈ redactTokens W (x ++ (secret ++ y)), c ∈ secret := by
    rintro c hc ⟨m, _, _, u, hm, hrest⟩
    refine ⟨c, mem_redactTokens ?_ ?_, Pass.mem_of_mem_kept hc⟩
    · rw [hsub]
      exact List.mem_append_right _ (List.mem_append_left _ (Pass.mem_kept_of_mem_subBefore hc))
    · exact (bearer_of_find hm).2.2 c (by rw [hrest]; rfl)
  rcases (bearer W).kept_cases n x.getLast? secret y with hnil | ⟨rfl, hmiss⟩ |
    ⟨z, c, u, hz, hc, hbeside⟩
  · exact (hkept hnil).elim
  · rw [hmiss.erase.subBefore_eq] at hkept hknown
    rw [hmiss.subBefore_eq, hmiss.stops] at hsub
    rw [redactTokens, hsub]
    exact exists_mem_jwt_sub (bearer_isApart.edge_subBefore hn hx) (bearer_isApart.edge_sub hy)
      hkept fun h => hknown ⟨rfl, h⟩
  · rcases hbeside with ⟨-, hne, hu⟩ | ⟨_, prev, text, m, -, hm, hrest⟩ | ⟨d, u', m, rfl, hm⟩
    · obtain ⟨prev, text, m, hm, hrest⟩ := hpending hne
      have hle : n ≤ secret.length := by
        by_contra hlt
        rw [List.drop_eq_nil_of_le (Nat.le_of_not_le hlt)] at hu
        cases hu
      rw [List.drop_append_of_le_length hle, ← hu] at hrest
      exact hmem c hc ⟨m, prev, text, _, hm, hrest⟩
    · exact hmem c hc ⟨m, prev, text, _, hm, hrest⟩
    · have hword := (bearer_of_find hm).1
      refine ⟨c, ?_, Pass.mem_of_mem_kept hc⟩
      rw [Pass.subBefore_of_some hm] at hz
      rw [redactTokens, hsub, hz]
      have hjwt : ∀ z u : List χ, c ∈ (accessKey W).sub none
          ((jwt W).sub none (z ++ c :: (redacted ++ u))) := fun z u =>
        mem_accessKey_sub (mem_jwt_sub_of_redacted hword) (not_isKeyChar_of_not_isWord hword)
      simpa [show (bearer W).write m = redacted from rfl] using
        hjwt ((bearer W).subBefore (secret ++ y) 0 none x ++ z) _

end Survivors

end NextBallUp.Logging
