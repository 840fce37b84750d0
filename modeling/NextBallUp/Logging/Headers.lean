import NextBallUp.Logging.Covering

/-!
# Redaction of the headers that are named

A secret of a header is taken out by the pattern of the bearer tokens, as a token or a key of its
own, or as the value of a header. The first two are what the patterns before the last one find; the
value of a header goes no further than its first blank, comma, quote or brace.

## Main results

* `gone_of_kept_eq_nil`, `gone_of_isKnown`: what is in bearer tokens, and what is a token or a key,
  is taken
* `gone_iff_hidden`: **a secret of a header is taken out if it is hidden**, and only then
* `headers_redacted_iff`: so the headers of a message are redacted where all secrets are hidden
-/

namespace NextBallUp.Logging

section Known

variable {χ : Type} [Writable χ] {W : WordTable} {prev : Option χ} {l y : List χ}

theorem codes_of_spells {w : List ℕ} (h : Regex.Spells (fun d c => c = d) w l) : codes l = w := by
  induction h with
  | nil => rfl
  | cons hc _ ih =>
    rw [codes, List.map_cons, decide_eq_true_iff.mp hc]
    exact congrArg _ ih

/-- A token has two dots. -/
theorem IsJwt.count_dots (h : IsJwt l) : (codes l).count 46 = 2 := by
  have hnone : ∀ {v : List χ}, (∀ c ∈ v, Regex.isIn isJwtChar c = true) →
      (codes v).count 46 = 0 := by
    intro v hv
    refine List.count_eq_zero.mpr fun hmem => ?_
    obtain ⟨c, hc, hcode⟩ := List.mem_map.mp hmem
    have hchar := hv c hc
    rw [Regex.isIn, hcode] at hchar
    cases hchar
  obtain ⟨b, v, p, t, d, d', rfl, hb, hd, hd', hv, hp, ht⟩ := h
  simp only [codes_append, List.count_append, codes_of_spells hb, codes_of_spells hd,
    codes_of_spells hd', hnone hv.2, hnone hp.2, hnone ht.2, codePoints_eyJ, codePoints_dot]
  rfl

/-- A token that stands alone is found as a whole. -/
theorem jwt_find_alone (h : IsJwt l) (hprev : Regex.isWordAt W.isWord prev = false)
    (hlast : Regex.isWordAt W.isWord l.getLast? = true)
    (hy : ∀ c ∈ y.head?, IsEdge W (HasCode.code c)) :
    ∃ m, (jwt W).find prev (l ++ y) = some m ∧ m.rest = y := by
  have hend : Regex.isWordAt W.isWord l.getLast? ≠ Regex.isWordAt W.isWord y.head? := by
    rw [hlast, isWordAt_of_edge hy]
    exact Bool.false_ne_true.symm
  have hmatches : jwtPattern.Matches W.isWord prev l y [] :=
    jwt_matches_iff.mpr ⟨hprev, h, hend, rfl⟩
  obtain ⟨m, hm⟩ := Regex.exists_first hmatches
  obtain ⟨c, d, e, t, rfl, -⟩ := h.start
  obtain ⟨u, hu, hrest⟩ := Pass.exists_of_stops (P := jwt W) (jwt_stops_of_head hy) hm
  refine ⟨m, hm, ?_⟩
  rcases eq_or_ne u [] with rfl | hne
  · exact hrest
  exfalso
  -- behind the token that is found there is no dot
  have hcount := h.count_dots
  rw [hu, codes_append, List.count_append, (jwt_of_find hm).2.1.count_dots] at hcount
  have hdot : 46 ∉ codes u := List.count_eq_zero.mp (by omega)
  have hchars : ∀ c ∈ u, Regex.isIn isJwtChar c = true := by
    intro c hc
    by_contra hn
    refine Regex.code_ne_of_matches (jwt_avoids (Bool.eq_false_iff.mpr hn) fun hcode => hdot ?_)
      hmatches c ?_ rfl
    · rw [← hcode]
      exact List.mem_map_of_mem hc
    · rw [hu]
      exact List.mem_append_right _ hc
  have hsame := isWordAt_of_jwt_find hm hne hchars hrest
  rw [hu, List.getLast?_append_of_ne_nil _ hne] at hend
  exact hend hsame

theorem accessKey_find_alone (h : IsAccessKey l) (hprev : Regex.isWordAt W.isWord prev = false)
    (hy : ∀ c ∈ y.head?, IsEdge W (HasCode.code c)) :
    ∃ m, (accessKey W).find prev (l ++ y) = some m ∧ m.rest = y := by
  have hmatches : accessKeyPattern.Matches W.isWord prev l y [] :=
    accessKey_matches_iff.mpr ⟨hprev, h, isWordAt_of_edge hy, rfl⟩
  obtain ⟨m, hm⟩ : ∃ m, (accessKey W).find prev (l ++ y) = some m := Regex.exists_first hmatches
  have hlength := (accessKey_of_find hm).2.1.length.trans h.length.symm
  exact ⟨m, hm, (List.append_inj (Pass.taken_append_rest _ hm) hlength).2⟩

/-- A key has no token. -/
theorem IsAccessKey.jwt_misses (h : IsAccessKey l) : (jwt W).Misses prev l y := by
  refine Pass.misses_of_forall fun x c t hxy => ?_
  by_contra hfind
  obtain ⟨m, hm⟩ := Option.ne_none_iff_exists'.mp hfind
  obtain ⟨u, hu⟩ := Pass.exists_of_find_cons hm
  have hcode := (jwt_of_find hm).2.1.head c (by rw [hu]; rfl)
  have hchar := h.chars c (by rw [hxy]; simp)
  rw [Regex.isIn, hcode] at hchar
  cases hchar

end Known

section Headers

variable {W : WordTable} {text before secret after x y : List Traced} {c : Traced}

/-! ### What is hidden -/

theorem mem_of_mem_redactText (hc : c ∈ redactText W text) (hmark : c.secret = true) :
    c ∈ (bearer W).sub none text := by
  have hc : c ∈ (header W).sub none (redactTokens W text) := hc
  rcases Pass.mem_sub_of_write (fun _ _ _ h => mem_write_header h) c hc with hc | hc
  · exact jwt_isApart.mem_of_secret (accessKey_isApart.mem_of_secret hc hmark) hmark
  · exact (Bool.false_ne_true ((not_secret_of_mem_redacted hc).symm.trans hmark)).elim

/-- What is in bearer tokens is taken. -/
theorem gone_of_kept_eq_nil (hbefore : ∀ c ∈ before, c.secret = false)
    (hafter : ∀ c ∈ after, c.secret = false) (h : (bearer W).kept before secret after = []) :
    ∀ c ∈ redactText W (before ++ (secret ++ after)), c.secret = false := by
  intro c hc
  by_contra hnot
  have hmark : c.secret = true := by simpa using hnot
  have hmem := mem_of_mem_redactText hc hmark
  rw [Pass.sub_parts] at hmem
  rcases List.mem_append.mp hmem with hmem | hmem
  · exact hnot (bearer_isApart.not_secret_of_mem_subBefore hmem hbefore)
  rcases List.mem_append.mp hmem with hmem | hmem
  · rcases Pass.mem_kept_or_written hmem with hmem | ⟨_, _, m, -, hmem⟩
    · rw [Pass.kept] at h
      rw [h] at hmem
      cases hmem
    · exact hnot (not_secret_of_mem_redacted hmem)
  · exact hnot (bearer_isApart.not_secret_of_mem_subBefore hmem hafter)

/-- What a pass finds as a whole is taken. -/
theorem IsApart.not_secret_of_find {P : Pass Traced} (hP : IsApart W P)
    (hx : ∀ c ∈ x, c.secret = false) (hy : ∀ c ∈ y, c.secret = false)
    (hstops : P.Stops none x (secret ++ y)) {m : Match Traced}
    (hm : P.find x.getLast? (secret ++ y) = some m) (hrest : m.rest = y) :
    ∀ c ∈ P.sub none (x ++ (secret ++ y)), c.secret = false := by
  intro c hc
  rw [Pass.sub_append hstops, Option.or_none, Pass.sub_of_find hm, hrest, hP.write] at hc
  rcases List.mem_append.mp hc with hc | hc
  · exact hP.not_secret_of_mem_subBefore hc hx
  rcases List.mem_append.mp hc with hc | hc
  · exact not_secret_of_mem_redacted hc
  · exact hP.not_secret_of_mem_sub hc hy

/-- **What is a token or a key of its own is taken.** -/
theorem gone_of_isKnown (hbefore : ∀ c ∈ before, c.secret = false)
    (hafter : ∀ c ∈ after, c.secret = false)
    (hx : ∀ c ∈ before.getLast?, IsEdge W (HasCode.code c))
    (hy : ∀ c ∈ after.head?, IsEdge W (HasCode.code c))
    (hkept : (bearer W).kept before secret after = secret) (hknown : IsKnown W secret) :
    ∀ c ∈ redactText W (before ++ (secret ++ after)), c.secret = false := by
  have hne : secret ≠ [] := by
    rcases hknown with ⟨hjwt, -⟩ | hkey
    · exact hjwt.ne_nil
    · exact hkey.ne_nil
  obtain ⟨hstops, hmiss⟩ := Pass.misses_of_length_kept hne (congrArg List.length hkept)
  have htext := Pass.sub_append hstops
  rw [Option.or_none, hmiss.sub_append_of_ne_nil hne] at htext
  have hx₁ := bearer_isApart.edge_subBefore hstops hx
  have hy₁ : ∀ c ∈ ((bearer W).sub secret.getLast? after).head?, IsEdge W (HasCode.code c) :=
    bearer_isApart.edge_sub hy
  have hmarkx₁ : ∀ c ∈ (bearer W).subBefore (secret ++ after) 0 none before, c.secret = false :=
    fun c hc => bearer_isApart.not_secret_of_mem_subBefore hc hbefore
  have hmarky₁ : ∀ c ∈ (bearer W).sub secret.getLast? after, c.secret = false :=
    fun c hc => bearer_isApart.not_secret_of_mem_sub hc hafter
  generalize (bearer W).subBefore (secret ++ after) 0 none before = x₁ at htext hx₁ hmarkx₁
  generalize (bearer W).sub secret.getLast? after = y₁ at htext hy₁ hmarky₁
  suffices htokens : ∀ c ∈ (accessKey W).sub none ((jwt W).sub none (x₁ ++ (secret ++ y₁))),
      c.secret = false by
    rw [← htext] at htokens
    exact fun c hc => not_secret_of_mem_header_sub hc htokens
  rcases hknown with ⟨hjwt, hlast⟩ | hkey
  · obtain ⟨m, hm, hrest⟩ := jwt_find_alone hjwt (isWordAt_of_edge hx₁) hlast hy₁
    exact fun c hc => accessKey_isApart.not_secret_of_mem_sub hc
      (jwt_isApart.not_secret_of_find hmarkx₁ hmarky₁ (jwt_stops hx₁) hm hrest)
  · have hstops₁ : (jwt W).Stops none x₁ (secret ++ y₁) := jwt_stops hx₁
    rw [Pass.sub_append hstops₁, hkey.jwt_misses.sub_append_of_ne_nil hne]
    have hx₂ := jwt_isApart.edge_subBefore hstops₁ hx₁
    have hy₂ : ∀ c ∈ ((jwt W).sub secret.getLast? y₁).head?, IsEdge W (HasCode.code c) :=
      jwt_isApart.edge_sub hy₁
    obtain ⟨m, hm, hrest⟩ := accessKey_find_alone hkey (isWordAt_of_edge hx₂) hy₂
    exact accessKey_isApart.not_secret_of_find
      (fun c hc => jwt_isApart.not_secret_of_mem_subBefore hc hmarkx₁)
      (fun c hc => jwt_isApart.not_secret_of_mem_sub hc hmarky₁) (accessKey_stops hx₂) hm hrest

end Headers

section Messages

variable {W : WordTable} {before secret after : List ℕ}

/-- The characters of words that are ASCII. -/
def asciiWords : WordTable where
  isWord c := isAlnum c || c = 95
  ascii _ _ := rfl
  space c hc := by
    simp only [isWhitespace, Bool.or_eq_true, Bool.and_eq_true, decide_eq_true_eq] at hc
    simp only [isAlnum, isUpper, isLower, isDigit, Bool.or_eq_false_iff, Bool.and_eq_false_iff,
      decide_eq_false_iff_not]
    omega

theorem secret_of_mem_traced {mark : Bool} {text : List ℕ} {c : Traced}
    (hc : c ∈ traced mark text) : c.secret = mark := by
  obtain ⟨n, -, rfl⟩ := List.mem_map.mp hc
  rfl

/-- **A secret of a header is taken out** if it is hidden, and only then. -/
theorem gone_iff_hidden (h : SecretAt W before secret after) :
    Gone W before secret after ↔ Hidden W before secret after := by
  have hbefore : ∀ c ∈ traced false before, c.secret = false := fun _ => secret_of_mem_traced
  have hsecret : ∀ c ∈ traced true secret, c.secret = true := fun _ => secret_of_mem_traced
  have hafter : ∀ c ∈ traced false after, c.secret = false := fun _ => secret_of_mem_traced
  have hx : ∀ c ∈ (traced false before).getLast?, IsEdge W (HasCode.code c) := by
    intro c hc
    rw [traced, List.getLast?_map] at hc
    obtain ⟨n, hn, rfl⟩ := Option.map_eq_some_iff.mp hc
    exact h.edges.1 n hn
  have hy : ∀ c ∈ (traced false after).head?, IsEdge W (HasCode.code c) := by
    intro c hc
    rw [traced, List.head?_map] at hc
    obtain ⟨n, hn, rfl⟩ := Option.map_eq_some_iff.mp hc
    exact h.edges.2 n hn
  have hcodes : Hidden W (codes (traced false before)) (codes (traced true secret))
      (codes (traced false after)) ↔
        Hidden W (traced false before) (traced true secret) (traced false after) := hidden_codes_iff
  rw [codes_traced, codes_traced, codes_traced] at hcodes
  rw [hcodes]
  constructor
  · intro hgone
    rcases Classical.em ((bearer W).kept (traced false before) (traced true secret)
      (traced false after) = []) with hnil | hne
    · exact .inl hnil
    rcases Classical.em ((bearer W).kept (traced false before) (traced true secret)
      (traced false after) = traced true secret ∧ IsKnown W (traced true secret)) with
      hknown | hknown
    · exact .inr (.inl hknown)
    obtain ⟨c, hc, hmem⟩ := exists_mem_redactTokens hx hy hne hknown
    exact .inr (.inr (covered_of_gone hbefore hsecret hafter hgone ⟨c, hc, hsecret c hmem⟩))
  · rintro (hnil | ⟨hkept, hknown⟩ | ⟨start, n, s, u, hstart, hcovered⟩)
    · exact gone_of_kept_eq_nil hbefore hafter hnil
    · exact gone_of_isKnown hbefore hafter hx hy hkept hknown
    · have hgone := gone_of_coveredBy (fun c hc => hbefore c ?_) (fun c hc => hbefore c ?_) hafter
        hcovered
      · refine fun c hc => hgone c ?_
        rw [hstart] at hc
        simpa using hc
      · rw [hstart]
        simp [hc]
      · rw [hstart]
        rcases List.mem_append.mp hc with hc | hc <;> simp [hc]

/-- A part of a message that is secret. -/
structure Part where
  before : List ℕ
  secret : List ℕ
  after : List ℕ

def Part.message (p : Part) : List ℕ := p.before ++ (p.secret ++ p.after)

/-- **The headers of a message are redacted** if all of their secrets are hidden, and only then.
Redacting a second time changes nothing. -/
theorem headers_redacted_iff (W : WordTable) {κ ο : Type} {message : List ℕ} {secrets : List Part}
    (h : ∀ p ∈ secrets, p.message = message ∧ SecretAt W p.before p.secret p.after) :
    ((∀ p ∈ secrets, Gone W p.before p.secret p.after) ∧
      (redactLogValue W (redactLogValue W (.str message)) : LogValue κ ο) =
        redactLogValue W (.str message)) ↔
      ∀ p ∈ secrets, Hidden W p.before p.secret p.after := by
  constructor
  · rintro ⟨hgone, -⟩ p hp
    exact (gone_iff_hidden (h p hp).2).mp (hgone p hp)
  · intro hhidden
    refine ⟨fun p hp => ?_, redactLogValue_redactLogValue W _⟩
    exact (gone_iff_hidden (h p hp).2).mpr (hhidden p hp)

/-- A bearer token goes, and a single cookie behind it. -/
theorem bearer_and_cookie_redacted :
    (∀ p ∈ [Part.mk "Authorization: Bearer ".codePoints "abc.def".codePoints
          ", Cookie: a=1".codePoints,
        Part.mk "Authorization: Bearer abc.def, Cookie: a=".codePoints "1".codePoints []],
      Gone asciiWords p.before p.secret p.after) ∧
    (redactLogValue asciiWords (redactLogValue asciiWords
        (.str "Authorization: Bearer abc.def, Cookie: a=1".codePoints)) : LogValue Unit Unit) =
      redactLogValue asciiWords (.str "Authorization: Bearer abc.def, Cookie: a=1".codePoints) := by
  have hauthorization : ValueAt asciiWords "authorization"
      ([] ++ ("Authorization".codePoints ++ 58 :: [32]))
      ("Bearer".codePoints ++ ([32] ++ "abc.def".codePoints)) ", Cookie: a=1".codePoints :=
    .plain rfl (by decide +kernel) (by decide) (by decide +kernel)
  have hcookie : ValueAt asciiWords "cookie"
      ("Authorization: Bearer abc.def, ".codePoints ++ ("Cookie".codePoints ++ 58 :: [32]))
      (([].map fun pair => cookiePair pair ++ [59, 32]).flatten ++
        (cookiePair ("a".codePoints, "1".codePoints) ++
          ([].map fun pair => [59, 32] ++ cookiePair pair).flatten)) [] :=
    .plain (by decide +kernel) (by decide +kernel) (by decide) (by simp)
  have hseparator : IsSeparator ": ".codePoints :=
    ⟨[], [], 58, [32], [], by decide +kernel, by decide, by decide, by decide, by decide, by decide⟩
  refine (headers_redacted_iff asciiWords fun p hp => ?_).mpr fun p hp => ?_
  · simp only [List.mem_cons, List.not_mem_nil, or_false] at hp
    rcases hp with rfl | rfl
    · exact ⟨by decide +kernel, SecretAt.credentials hauthorization (by decide +kernel)
        (by decide +kernel) (by decide) (by decide) ⟨by decide +kernel, by decide +kernel⟩⟩
    · exact ⟨by decide +kernel, SecretAt.cookie hcookie (by decide +kernel)⟩
  · simp only [List.mem_cons, List.not_mem_nil, or_false] at hp
    rcases hp with rfl | rfl
    · exact .inl (by decide +kernel)
    · exact .inr (.inr ⟨"Authorization: Bearer abc.def, ".codePoints, "Cookie".codePoints,
        ": ".codePoints, "a=".codePoints, by decide +kernel, by decide +kernel,
        ⟨"cookie", by decide, by decide +kernel⟩, hseparator, by decide +kernel, by decide +kernel⟩)

/-- The credentials behind another scheme than `Bearer` are left, and so are all cookies but the
first one. -/
theorem not_headers_redacted :
    SecretAt asciiWords "Authorization: Basic ".codePoints "dXNlcjpwYXNz".codePoints [] ∧
    ¬ Gone asciiWords "Authorization: Basic ".codePoints "dXNlcjpwYXNz".codePoints [] ∧
    redactText asciiWords "Authorization: Basic dXNlcjpwYXNz".codePoints =
      "Authorization: [REDACTED] dXNlcjpwYXNz".codePoints ∧
    SecretAt asciiWords "Cookie: a=1; b=".codePoints "2".codePoints [] ∧
    ¬ Gone asciiWords "Cookie: a=1; b=".codePoints "2".codePoints [] ∧
    redactText asciiWords "Cookie: a=1; b=2".codePoints = "Cookie: [REDACTED] b=2".codePoints := by
  have hauthorization : ValueAt asciiWords "authorization"
      ([] ++ ("Authorization".codePoints ++ 58 :: [32]))
      ("Basic".codePoints ++ ([32] ++ "dXNlcjpwYXNz".codePoints)) [] :=
    .plain rfl (by decide +kernel) (by decide) (by simp)
  have hcookie : ValueAt asciiWords "cookie" ([] ++ ("Cookie".codePoints ++ 58 :: [32]))
      (([("a".codePoints, "1".codePoints)].map fun pair => cookiePair pair ++ [59, 32]).flatten ++
        (cookiePair ("b".codePoints, "2".codePoints) ++
          ([].map fun pair => [59, 32] ++ cookiePair pair).flatten)) [] :=
    .plain rfl (by decide +kernel) (by decide) (by simp)
  refine ⟨?_, by decide +kernel, by decide +kernel, ?_, by decide +kernel, by decide +kernel⟩
  · exact SecretAt.credentials hauthorization (by decide +kernel) (by decide +kernel)
      (by decide) (by decide) ⟨by decide +kernel, by decide +kernel⟩
  · exact SecretAt.cookie hcookie (by decide +kernel)

end Messages

end NextBallUp.Logging
