import NextBallUp.Logging.Survivors

/-!
# What the pattern of the headers takes out

The pattern of the headers comes last. What it takes of a secret stands behind a name and a
separator, with nothing but characters of a value in between. The name and the separator have no
brackets, and so they stand in the message itself, and the scans of the first three patterns stop
before them.

## Main results

* `covered_of_gone`: **what is taken is covered by a header** of the message
* `gone_of_coveredBy`: what is covered by a header is taken
-/

namespace NextBallUp.Logging

section Places

variable {χ : Type} [Writable χ] {W : WordTable} {P : Pass χ} {prev : Option χ}
  {text x y w rest : List χ} {c : χ}

/-- What has no brackets, and is not of the block, was there before. -/
theorem IsApart.exists_of_sub_eq (hP : IsApart W P)
    (hw : ∀ c ∈ w, HasCode.code c ≠ 91 ∧ HasCode.code c ≠ 93) (hc : c ∈ w) (hother : c ∉ redacted)
    (h : P.sub none text = x ++ (w ++ rest)) : ∃ z u, text = z ++ (w ++ u) ∧
      P.Stops none z (w ++ u) ∧ P.subBefore (w ++ u) 0 none z = x ∧
      P.sub z.getLast? (w ++ u) = w ++ rest ∧ P.sub w.getLast? u = rest ∧
      P.Stops none (z ++ w) u := by
  have hbracket : ∀ n, n = 91 ∨ n = 93 → (Writable.ofCode n : χ) ∉ w := by
    intro n hn hmem
    have hne := hw _ hmem
    rw [Writable.code_ofCode] at hne
    omega
  obtain ⟨z, u, htext, hstops, hz, hmiss, hrest⟩ := Pass.exists_of_sub_eq
    (fun _ _ m _ => hP.write m) head?_redacted getLast?_redacted (hbracket 91 (.inl rfl))
    (hbracket 93 (.inr rfl)) hc hother h
  rw [Option.or_none] at hmiss hrest
  have hlast : w.getLast?.or z.getLast? = w.getLast? := by
    rw [List.getLast?_eq_getLast_of_ne_nil (List.ne_nil_of_mem hc)]
    rfl
  rw [hlast] at hrest
  refine ⟨z, u, htext, hstops, hz, by rw [hmiss.sub_append, hlast, hrest], hrest, ?_⟩
  exact Pass.stops_append hstops (by rw [Option.or_none]; exact hmiss.stops)

/-- The text before a place at which a word begins ends in a word if what it becomes does. -/
theorem IsApart.isWordAt_subBefore (hP : IsApart W P) (hstops : P.Stops none x y)
    (hy : ∃ c ∈ y.head?, Regex.isIn isAlnum c = true) :
    Regex.isWordAt W.isWord (P.subBefore y 0 none x).getLast? =
      Regex.isWordAt W.isWord x.getLast? := by
  rcases Pass.getLast?_subBefore_of_stops hstops with rfl | ⟨u, z, d, rfl, hz⟩ |
    ⟨_, _, m, z, hm, hrest, hlast, hz⟩
  · rfl
  · rw [hz, List.getLast?_concat, List.getLast?_concat]
  · obtain ⟨c, hc, halnum⟩ := hy
    have hopen : Regex.isWordAt W.isWord (z ++ redacted).getLast? = false := by
      refine isWordAt_of_edge fun d hd => ?_
      rw [List.getLast?_append, getLast?_redacted] at hd
      rw [← Option.some.inj hd, Writable.code_ofCode]
      exact (isEdge_bracket W).2
    rw [hz, hP.write, hopen, ← hlast]
    exact ((hP.apart hm).2.2.2 c (hrest ▸ hc) halnum).symm

end Places

section Names

variable {χ : Type} [Writable χ] {W : WordTable} {prev : Option χ} {n s next : List χ} {c : χ}

/-- A word that begins in a name or in the separator behind it is in the name. -/
theorem exists_of_word {x y l rest : List χ} (hs : IsSeparator s) (hxy : n ++ s = x ++ y)
    (hy : y ≠ []) (h : y ++ next = l ++ rest) (hne : l ≠ [])
    (hword : ∀ c ∈ l, W.isWord (HasCode.code c) = true) : ∃ z, n = x ++ (l ++ z) := by
  have hapart : ∀ c ∈ l, c ∉ s := fun c hc hmem =>
    Bool.false_ne_true ((hs.not_isWord c hmem).symm.trans (hword c hc))
  -- a word does not go on behind the separator, and does not end in it
  obtain ⟨u, rfl⟩ : ∃ u, y = l ++ u := by
    rcases List.append_eq_append_iff.mp h with ⟨t, ht, -⟩ | ⟨u, hu, -⟩
    · exfalso
      have hlast := congrArg List.getLast? hxy
      rw [List.getLast?_append_of_ne_nil _ hs.ne_nil, List.getLast?_append_of_ne_nil _ hy,
        List.getLast?_eq_getLast_of_ne_nil hy] at hlast
      refine hapart (y.getLast hy) ?_ (List.mem_of_getLast? hlast)
      rw [ht]
      exact List.mem_append_left _ (List.getLast_mem hy)
    · exact ⟨u, hu⟩
  rw [← List.append_assoc] at hxy
  rcases List.append_eq_append_iff.mp hxy with ⟨t, ht, hs'⟩ | ⟨z, hz, -⟩
  · rcases List.eq_nil_or_concat' t with rfl | ⟨t, e, rfl⟩
    · exact ⟨[], by rw [List.append_nil, ht, List.append_nil]⟩
    · exfalso
      have hlast := congrArg List.getLast? ht
      rw [← List.append_assoc, List.getLast?_concat, List.getLast?_append_of_ne_nil _ hne] at hlast
      refine hapart e (List.mem_of_getLast? hlast) ?_
      rw [hs']
      simp
  · exact ⟨z, by rw [hz, List.append_assoc]⟩

theorem bearer_misses (hn : IsName n) (hs : IsSeparator s) :
    (bearer W).Misses prev (n ++ s) next := by
  refine Pass.misses_of_forall fun x c y hxy => ?_
  by_contra hfind
  obtain ⟨m, hm⟩ := Option.ne_none_iff_exists'.mp hfind
  obtain ⟨t, ht⟩ := Pass.exists_of_find_cons hm
  have hmem : c ∈ n ++ s := by
    rw [hxy]
    simp
  rcases (bearer_of_find hm).2.1.start c (by rw [ht]; rfl) with hcode | hcode
  · exact code_ne_of_mem_name W (by decide) (by decide) hn hs c hmem hcode
  · exact code_ne_of_mem_name W (by decide) (by decide) hn hs c hmem hcode

theorem jwt_misses (hn : IsName n) (hs : IsSeparator s) : (jwt W).Misses prev (n ++ s) next := by
  refine Pass.misses_of_forall fun x c y hxy => ?_
  by_contra hfind
  obtain ⟨m, hm⟩ := Option.ne_none_iff_exists'.mp hfind
  obtain ⟨d, e, f, t, ht, hd, he, hf⟩ := (jwt_of_find hm).2.1.start
  have htext : c :: y ++ next = [d, e, f] ++ (t ++ m.rest) := by
    rw [← Pass.taken_append_rest _ hm, ht]
    rfl
  have hword : ∀ c ∈ [d, e, f], W.isWord (HasCode.code c) = true := by
    intro c hc
    have hcode : HasCode.code c ∈ [101, 121, 74] := by
      rw [← hd, ← he, ← hf]
      exact List.mem_map_of_mem hc
    exact isWord_of_isAlnum ((by decide : ∀ n ∈ [101, 121, 74], isAlnum n = true) _ hcode)
  obtain ⟨z, rfl⟩ := exists_of_word hs hxy (List.cons_ne_nil c y) htext (List.cons_ne_nil _ _) hword
  -- none of the names has a `J`
  exact code_ne_of_mem_name W (by decide) (by decide) hn hs f (by simp) hf

/-- Only one of the names is as long as a key. -/
theorem IsName.length_lt_or (hn : IsName n) : n.length < 20 ∨
    n.length = 20 ∧ ∀ c ∈ n.head?, HasCode.code c ≠ 65 := by
  have hnames : ∀ name ∈ headerNames, name.codePoints.length < 20 ∨
      name.codePoints.length = 20 ∧ name.codePoints.head? = some 120 := by decide
  obtain ⟨name, hname, hl⟩ := hn
  rw [hl.length]
  refine (hnames name hname).imp_right fun ⟨hlength, hhead⟩ => ⟨hlength, ?_⟩
  obtain ⟨w, hw⟩ := List.head?_eq_some_iff.mp hhead
  rw [hw] at hl
  obtain ⟨c, t, hc, -, rfl⟩ := List.forall₂_cons_left_iff.mp hl
  intro d hd
  obtain rfl : c = d := Option.some.inj hd
  have hcode := eq_or_of_ignoreCase (by decide) hc
  omega

theorem accessKey_misses (hn : IsName n) (hs : IsSeparator s) :
    (accessKey W).Misses prev (n ++ s) next := by
  refine Pass.misses_of_forall fun x c y hxy => ?_
  by_contra hfind
  obtain ⟨m, hm⟩ := Option.ne_none_iff_exists'.mp hfind
  have hkey := (accessKey_of_find hm).2.1
  have hword : ∀ c ∈ m.taken, W.isWord (HasCode.code c) = true := fun c hc =>
    isWord_of_isKeyChar (isKeyChar_of_mem hm hc)
  have htext := Pass.taken_append_rest _ hm
  obtain ⟨z, rfl⟩ := exists_of_word hs hxy (List.cons_ne_nil c y) htext.symm
    (Pass.taken_ne_nil _ hm) hword
  have hlength := hkey.length
  rcases hn.length_lt_or with hlt | ⟨heq, hhead⟩
  · simp only [List.length_append] at hlt
    omega
  · simp only [List.length_append] at heq
    have hx : x = [] := List.length_eq_zero_iff.mp (by omega)
    subst hx
    obtain ⟨t, ht⟩ := Pass.exists_of_find_cons hm
    have hc : c ∈ ([] ++ (m.taken ++ z)).head? := by
      rw [ht]
      rfl
    exact hhead c hc (hkey.head c (by rw [ht]; rfl))

end Names

section Covering

variable {W : WordTable} {prev : Option Traced} {text before secret after : List Traced}
  {c : Traced}

/-! ### Marks -/

theorem not_secret_of_mem_redacted (h : c ∈ redacted) : c.secret = false := by
  obtain ⟨d, -, rfl⟩ := List.mem_map.mp h
  rfl

theorem IsApart.mem_of_secret {P : Pass Traced} (hP : IsApart W P) (hc : c ∈ P.sub prev text)
    (hsecret : c.secret = true) : c ∈ text := by
  rcases Pass.mem_sub hc with hc | ⟨_, _, m, -, hc⟩
  · exact hc
  · rw [hP.write] at hc
    exact (Bool.false_ne_true ((not_secret_of_mem_redacted hc).symm.trans hsecret)).elim

theorem mem_write_header {m : Match Traced} (h : (header W).find prev text = some m) :
    ∀ c ∈ (header W).write m, c ∈ m.taken ∨ c ∈ redacted := by
  obtain ⟨-, n, s, v, -, htaken, hg, -⟩ := header_find_iff.mp h
  intro c hc
  rw [show (header W).write m = m.groups.flatten ++ redacted from rfl, hg] at hc
  rw [htaken]
  simp only [List.flatten_cons, List.flatten_nil, List.append_nil, List.mem_append] at hc ⊢
  exact hc.imp_left fun hc => hc.imp_right .inl

/-- A text with a mark has a first one. -/
theorem exists_first_secret (h : ∃ c ∈ text, c.secret = true) :
    ∃ x c y, text = x ++ c :: y ∧ (∀ d ∈ x, d.secret = false) ∧ c.secret = true := by
  induction text with
  | nil =>
    obtain ⟨c, hc, -⟩ := h
    cases hc
  | cons d text ih =>
    cases hd : d.secret with
    | true => exact ⟨[], d, text, rfl, by simp, hd⟩
    | false =>
      have htext : ∃ c ∈ text, c.secret = true := by
        obtain ⟨c, hc, hsecret⟩ := h
        rcases List.mem_cons.mp hc with rfl | hc
        · exact (Bool.false_ne_true (hd.symm.trans hsecret)).elim
        · exact ⟨c, hc, hsecret⟩
      obtain ⟨x, c, y, rfl, hx, hc⟩ := ih htext
      refine ⟨d :: x, c, y, rfl, fun e he => ?_, hc⟩
      rcases List.mem_cons.mp he with rfl | he
      · exact hd
      · exact hx e he

/-! ### What is taken -/

/-- The first mark that is taken stands behind a name and a separator that have none. -/
theorem exists_of_gone (hgone : ∀ c ∈ (header W).sub none text, c.secret = false)
    (hleft : ∃ c ∈ text, c.secret = true) : ∃ start name sep value rest,
      text = start ++ ((name ++ sep) ++ (value ++ rest)) ∧ IsName name ∧ IsSeparator sep ∧
      (header W).Stops none start ((name ++ sep) ++ (value ++ rest)) ∧
      Regex.isWordAt W.isWord start.getLast? = false ∧
      (∀ c ∈ name ++ sep, c.secret = false) ∧ (∀ c ∈ value, Regex.isIn isValueChar c = true) ∧
      ∃ c ∈ value, c.secret = true := by
  obtain ⟨x, c, y, rfl, hx, hc⟩ := exists_first_secret hleft
  rcases (header W).kept_or_taken none x c y with ⟨-, hsub⟩ |
    ⟨x₀, x₁, t, m, rfl, htaken, rfl, hstops, hm⟩
  · have hmem := hgone c (by rw [hsub]; exact List.mem_append_right _ List.mem_cons_self)
    exact (Bool.false_ne_true (hmem.symm.trans hc)).elim
  obtain ⟨hprev, n, s, v, -, htaken', hg, hn, hs, hv, -⟩ := header_find_iff.mp hm
  have htext : x₀ ++ x₁ ++ c :: (t ++ m.rest) = x₀ ++ (m.taken ++ m.rest) := by
    rw [htaken]
    simp
  have hkept : ∀ c ∈ n ++ s, c.secret = false := by
    intro c hc
    refine hgone c ?_
    rw [htext, Pass.sub_append hstops, Pass.sub_of_find hm,
      show (header W).write m = m.groups.flatten ++ redacted from rfl, hg]
    simp only [List.mem_append] at hc
    simp only [List.flatten_cons, List.flatten_nil, List.append_nil, List.mem_append]
    exact .inr (.inl (.inl hc))
  have hvalue : c ∈ v := by
    have hmem : c ∈ m.taken := by rw [htaken]; simp
    rw [htaken', ← List.append_assoc] at hmem
    refine (List.mem_append.mp hmem).resolve_left fun hmem => ?_
    exact Bool.false_ne_true ((hkept c hmem).symm.trans hc)
  rw [Option.or_none] at hprev
  refine ⟨x₀, n, s, v, m.rest, ?_, hn, hs, ?_, hprev, hkept, hv.2, c, hvalue, hc⟩
  · rw [htext, htaken']
    simp
  · rw [htaken'] at hstops
    simpa using hstops

/-- A name and a separator that have no mark stand before what has marks. -/
theorem exists_between {start w rest : List Traced} (hsecret : ∀ c ∈ secret, c.secret = true)
    (hafter : ∀ c ∈ after, c.secret = false) (hw : ∀ c ∈ w, c.secret = false) (hne : w ≠ [])
    (hrest : ∃ c ∈ rest, c.secret = true)
    (h : before ++ (secret ++ after) = start ++ (w ++ rest)) :
    ∃ between, before = start ++ (w ++ between) ∧ rest = between ++ (secret ++ after) := by
  rw [← List.append_assoc start] at h
  rcases List.append_eq_append_iff.mp h with ⟨t, ht, hout⟩ | ⟨t, ht, hout⟩
  · rcases List.eq_nil_or_concat' t with rfl | ⟨t, e, rfl⟩
    · rw [List.append_nil] at ht
      exact ⟨[], by rw [List.append_nil, ht], hout.symm⟩
    exfalso
    -- a character of the separator would be in the secret, or the marks behind it
    have he : e ∈ w := by
      have hlast := congrArg List.getLast? ht
      rw [← List.append_assoc, List.getLast?_concat, List.getLast?_append_of_ne_nil _ hne] at hlast
      exact List.mem_of_getLast? hlast
    rcases List.append_eq_append_iff.mp hout with ⟨v, -, hv⟩ | ⟨v, hv, -⟩
    · obtain ⟨c, hc, hmark⟩ := hrest
      have hmem : c ∈ after := by
        rw [hv]
        exact List.mem_append_right _ hc
      exact Bool.false_ne_true ((hafter c hmem).symm.trans hmark)
    · have hmem : e ∈ secret := by
        rw [hv]
        simp
      exact Bool.false_ne_true ((hw e he).symm.trans (hsecret e hmem))
  · exact ⟨t, by rw [ht, List.append_assoc], hout⟩

theorem isValueChar_of_isTokenChar {n : ℕ} (h : isTokenChar n = true) : isValueChar n = true := by
  simp only [isTokenChar, isAlnum, isUpper, isLower, isDigit, Bool.or_eq_true, Bool.and_eq_true,
    decide_eq_true_eq] at h
  simp only [isValueChar, isQuote, isWhitespace, Bool.not_eq_true', Bool.or_eq_false_iff,
    Bool.and_eq_false_iff, decide_eq_false_iff_not]
  omega

/-- What is kept of a secret before it is gone has only characters of a value. -/
theorem isValueChar_of_mem_kept (hsecret : ∀ c ∈ secret, c.secret = true)
    (hgone : ∀ c ∈ redactText W (before ++ (secret ++ after)), c.secret = false)
    (hc : c ∈ (bearer W).kept before secret after) : Regex.isIn isValueChar c = true := by
  by_contra hvalue
  have hmem : c ∈ redactTokens W (before ++ (secret ++ after)) := by
    refine mem_redactTokens ?_ fun htoken => hvalue (isValueChar_of_isTokenChar htoken)
    rw [Pass.sub_parts]
    exact List.mem_append_right _ (List.mem_append_left _ (Pass.mem_kept_of_mem_subBefore hc))
  have hout : c ∈ redactText W (before ++ (secret ++ after)) := by
    refine Pass.mem_sub_of_mem (P := header W) hmem fun prev text m h hmem => ?_
    obtain ⟨-, n, s, v, -, htaken, hg, -, -, hv, -⟩ := header_find_iff.mp h
    rw [htaken] at hmem
    rw [show (header W).write m = m.groups.flatten ++ redacted from rfl, hg]
    simp only [List.mem_append] at hmem
    simp only [List.flatten_cons, List.flatten_nil, List.append_nil, List.mem_append]
    rcases hmem with hmem | hmem | hmem
    · exact .inl (.inl hmem)
    · exact .inl (.inr hmem)
    · exact (hvalue (hv.2 c hmem)).elim
  exact Bool.false_ne_true ((hgone c hout).symm.trans (hsecret c (Pass.mem_of_mem_kept hc)))

theorem IsApart.not_secret_of_mem_subBefore {P : Pass Traced} (hP : IsApart W P)
    {n : ℕ} {next : List Traced} (hc : c ∈ P.subBefore next n prev text)
    (htext : ∀ c ∈ text, c.secret = false) : c.secret = false := by
  rcases Pass.mem_of_mem_subBefore hc with hc | ⟨_, _, m, -, hc⟩
  · exact htext c hc
  · exact not_secret_of_mem_redacted (hP.write m ▸ hc)

/-- A character that is never taken stays behind what has no marks. -/
theorem IsApart.exists_sub_append_cons {P : Pass Traced} (hP : IsApart W P)
    (hc : ∀ prev text m, P.find prev text = some m → c ∉ m.taken) {x : List Traced}
    (hx : ∀ c ∈ x, c.secret = false) (prev : Option Traced) (y : List Traced) :
    ∃ x' y', P.sub prev (x ++ c :: y) = x' ++ c :: y' ∧ ∀ c ∈ x', c.secret = false :=
  ⟨_, _, Pass.sub_append_cons hc prev x y, fun _ h => hP.not_secret_of_mem_subBefore h hx⟩

/-- What is kept of a text that is taken up to a mark behind it has only characters of a value. -/
theorem isValueChar_of_mem_kept_between {between value rest : List Traced}
    (hbetween : ∀ c ∈ between, c.secret = false)
    (hsub : (accessKey W).sub prev ((jwt W).sub prev ((bearer W).sub prev (between ++ text))) =
      value ++ rest)
    (hvalue : ∀ c ∈ value, Regex.isIn isValueChar c = true) (hmark : ∃ c ∈ value, c.secret = true)
    (hc : c ∈ (bearer W).erase.subBefore text 0 prev between) :
    Regex.isIn isValueChar c = true := by
  by_contra hnot
  have htoken : ¬ Regex.isIn isTokenChar c = true := fun h => hnot (isValueChar_of_isTokenChar h)
  have hchar : ¬ Regex.isIn isJwtChar c = true := fun h => htoken (isTokenChar_of_isJwtChar h)
  have hjwt : ∀ prev text m, (jwt W).find prev text = some m → c ∉ m.taken := by
    intro prev text m h hmem
    rcases isJwtChar_or_of_mem h hmem with hjwt | hdot
    · exact hchar hjwt
    · refine htoken ?_
      rw [Regex.isIn, hdot]
      rfl
  have hkey : ∀ prev text m, (accessKey W).find prev text = some m → c ∉ m.taken :=
    fun prev text m h hmem => hchar (isJwtChar_of_isKeyChar (isKeyChar_of_mem h hmem))
  -- the character stays where it is, and before it there are no marks
  obtain ⟨x₁, y₁, h₁, hx₁⟩ : ∃ x y, (bearer W).sub prev (between ++ text) = x ++ c :: y ∧
      ∀ c ∈ x, c.secret = false := by
    obtain ⟨x, y, hxy⟩ := List.append_of_mem (Pass.mem_kept_of_mem_subBefore hc)
    have happend := (bearer W).subBefore_append 0 prev between text []
    rw [List.append_nil, hxy, List.append_assoc] at happend
    refine ⟨x, _, happend, fun d hd => ?_⟩
    have hmem : d ∈ (bearer W).subBefore text 0 prev between := by
      rw [hxy]
      exact List.mem_append_left _ hd
    exact bearer_isApart.not_secret_of_mem_subBefore hmem hbetween
  obtain ⟨x₂, y₂, h₂, hx₂⟩ := jwt_isApart.exists_sub_append_cons hjwt hx₁ prev y₁
  obtain ⟨x₃, y₃, h₃, hx₃⟩ := accessKey_isApart.exists_sub_append_cons hkey hx₂ prev y₂
  rw [h₁, h₂, h₃] at hsub
  obtain ⟨d, hd, hmark⟩ := hmark
  have hd₃ : d ∉ x₃ := fun hmem => Bool.false_ne_true ((hx₃ d hmem).symm.trans hmark)
  rcases List.append_eq_append_iff.mp hsub with ⟨t, ht, hout⟩ | ⟨t, ht, -⟩
  · cases t with
    | nil =>
      rw [ht, List.append_nil] at hd
      exact hd₃ hd
    | cons e t =>
      obtain ⟨rfl, -⟩ := List.cons.inj hout
      refine hnot (hvalue c ?_)
      rw [ht]
      exact List.mem_append_right _ List.mem_cons_self
  · refine hd₃ ?_
    rw [ht]
    exact List.mem_append_left _ hd

/-- **What is taken is covered by a header.** -/
theorem covered_of_gone (hbefore : ∀ c ∈ before, c.secret = false)
    (hsecret : ∀ c ∈ secret, c.secret = true) (hafter : ∀ c ∈ after, c.secret = false)
    (hgone : ∀ c ∈ redactText W (before ++ (secret ++ after)), c.secret = false)
    (hleft : ∃ c ∈ redactTokens W (before ++ (secret ++ after)), c.secret = true) :
    Covered W before secret after := by
  have hgone' : ∀ c ∈ (header W).sub none (redactTokens W (before ++ (secret ++ after))),
      c.secret = false := hgone
  obtain ⟨x₃, n, s, v, rest, htext, hn, hs, hstops, hprev, hunmarked, hvalue, hmark⟩ :=
    exists_of_gone hgone' hleft
  have hcodes := code_ne_of_isName W hn hs
  obtain ⟨q, w, sign, w', q', hsep, -, -, hsign, -⟩ := id hs
  have hmem : sign ∈ n ++ s := by
    rw [hsep]
    simp
  have hother : sign ∉ redacted := by
    intro hmem
    have hcode := code_of_mem_redacted hmem
    exact Bool.false_ne_true (((by decide : ∀ n ∈ [91, 82, 69, 68, 65, 67, 84, 69, 68, 93],
      isSign n = false) _ hcode).symm.trans hsign)
  obtain ⟨x₂, y₂, htext₂, hstops₃, hx₃, hsub₃, hrest₃, -⟩ :=
    accessKey_isApart.exists_of_sub_eq hcodes hmem hother htext
  obtain ⟨x₁, y₁, htext₁, hstops₂, hx₂, hsub₂, hrest₂, -⟩ :=
    jwt_isApart.exists_of_sub_eq hcodes hmem hother htext₂
  obtain ⟨start, y₀, htext₀, hstops₁, hx₁, hsub₁, hrest₁, hstart⟩ :=
    bearer_isApart.exists_of_sub_eq hcodes hmem hother htext₁
  have hy₀ : ∃ c ∈ y₀, c.secret = true := by
    obtain ⟨c, hc, hmark⟩ := hmark
    have hc₃ : c ∈ (accessKey W).sub (n ++ s).getLast? y₂ := hrest₃ ▸ List.mem_append_left _ hc
    have hc₂ := accessKey_isApart.mem_of_secret hc₃ hmark
    have hc₁ := jwt_isApart.mem_of_secret (hrest₂ ▸ hc₂) hmark
    exact ⟨c, bearer_isApart.mem_of_secret (hrest₁ ▸ hc₁) hmark, hmark⟩
  obtain ⟨u, hstart', rfl⟩ :=
    exists_between hsecret hafter hunmarked (List.ne_nil_of_mem hmem) hy₀ htext₀
  have hhead : ∀ y, ∃ c ∈ ((n ++ s) ++ y).head?, Regex.isIn isAlnum c = true := by
    intro y
    rw [List.append_assoc]
    exact hn.exists_head (s ++ y)
  have hassoc : n ++ (s ++ (u ++ (secret ++ after))) = (n ++ s) ++ (u ++ (secret ++ after)) :=
    (List.append_assoc n s _).symm
  refine ⟨start, n, s, u, by rw [hstart']; simp, ?_, hn, hs, ?_, ?_⟩
  · rw [← bearer_isApart.isWordAt_subBefore hstops₁ (hhead _), hx₁,
      ← jwt_isApart.isWordAt_subBefore hstops₂ (hhead _), hx₂,
      ← accessKey_isApart.isWordAt_subBefore hstops₃ (hhead _), hx₃, hprev]
  · rw [hassoc]
    refine ⟨hstops₁, ?_⟩
    rw [hx₁, hsub₁]
    refine ⟨hstops₂, ?_⟩
    rw [hx₂, hsub₂]
    refine ⟨hstops₃, ?_⟩
    rw [hx₃, hsub₃]
    exact ⟨hstops, trivial⟩
  · intro c hc
    rw [Pass.kept_append, List.append_assoc, ← hstart'] at hc
    rcases List.mem_append.mp hc with hc | hc
    · rw [Pass.kept_of_stops hstart] at hc
      have hlast : (start ++ (n ++ s)).getLast? = (n ++ s).getLast? :=
        List.getLast?_append_of_ne_nil _ (List.ne_nil_of_mem hmem)
      rw [hlast] at hc
      have htail : (accessKey W).sub (n ++ s).getLast? ((jwt W).sub (n ++ s).getLast?
          ((bearer W).sub (n ++ s).getLast? (u ++ (secret ++ after)))) = v ++ rest := by
        rw [hrest₁, hrest₂, hrest₃]
      refine isValueChar_of_mem_kept_between (fun d hd => hbefore d ?_) htail hvalue hmark hc
      rw [hstart']
      simp [hd]
    · exact isValueChar_of_mem_kept hsecret hgone hc

/-! ### What is covered -/

theorem IsApart.not_secret_of_mem_sub {P : Pass Traced} (hP : IsApart W P)
    (hc : c ∈ P.sub prev text) (htext : ∀ c ∈ text, c.secret = false) : c.secret = false :=
  hP.not_secret_of_mem_subBefore hc htext

theorem not_secret_of_mem_header_sub (hc : c ∈ (header W).sub prev text)
    (htext : ∀ c ∈ text, c.secret = false) : c.secret = false := by
  rcases Pass.mem_sub_of_write (fun _ _ _ h => mem_write_header h) c hc with hc | hc
  · exact htext c hc
  · exact not_secret_of_mem_redacted hc

/-- A header takes its value as far as the characters of a value go. -/
theorem not_secret_of_mem_cover {n s value rest : List Traced} (hn : IsName n) (hs : IsSeparator s)
    (hprev : Regex.isWordAt W.isWord prev = false) (hunmarked : ∀ c ∈ n ++ s, c.secret = false)
    (hvalue : ∀ c ∈ value, Regex.isIn isValueChar c = true) (hrest : ∀ c ∈ rest, c.secret = false)
    (hc : c ∈ (header W).sub prev (n ++ (s ++ (value ++ rest)))) : c.secret = false := by
  rcases eq_or_ne value [] with rfl | hne
  · refine not_secret_of_mem_header_sub hc fun d hd => ?_
    rw [List.nil_append, ← List.append_assoc] at hd
    exact (List.mem_append.mp hd).elim (hunmarked d) (hrest d)
  let isValue : Traced → Bool := Regex.isIn isValueChar
  have hfind : (header W).find prev (n ++ (s ++ (value ++ rest))) =
      some ⟨n ++ (s ++ (value ++ rest.takeWhile isValue)), rest.dropWhile isValue, [n, s]⟩ := by
    refine header_find_iff.mpr ⟨hprev, n, s, value ++ rest.takeWhile isValue, ?_, rfl, rfl, hn, hs,
      ⟨List.append_ne_nil_of_left_ne_nil hne _, fun d hd => ?_⟩, fun d hd => ?_⟩
    · rw [List.append_assoc value, List.takeWhile_append_dropWhile]
    · exact (List.mem_append.mp hd).elim (hvalue d) fun hd => List.mem_takeWhile_imp hd
    · have hnot := List.head?_dropWhile_not isValue rest
      rw [show (rest.dropWhile isValue).head? = some d from hd] at hnot
      exact Bool.eq_false_iff.mp hnot
  rw [Pass.sub_of_find hfind] at hc
  rcases List.mem_append.mp hc with hc | hc
  · rw [show (header W).write _ = ([n, s] : List (List Traced)).flatten ++ redacted from rfl] at hc
    simp only [List.flatten_cons, List.flatten_nil, List.append_nil, List.mem_append] at hc
    exact hc.elim (fun hc => hunmarked c (List.mem_append.mpr hc)) not_secret_of_mem_redacted
  · exact not_secret_of_mem_header_sub hc fun d hd => hrest d ((List.dropWhile_suffix _).subset hd)

/-- Marks among characters of a value stay there. -/
theorem IsApart.exists_sub_append {P : Pass Traced} (hP : IsApart W P) {value rest : List Traced}
    (hvalue : ∀ c ∈ value, Regex.isIn isValueChar c = true) (hrest : ∀ c ∈ rest, c.secret = false)
    (prev : Option Traced) : ∃ value' rest', P.sub prev (value ++ rest) = value' ++ rest' ∧
      (∀ c ∈ value', Regex.isIn isValueChar c = true) ∧ ∀ c ∈ rest', c.secret = false := by
  have happend := P.subBefore_append 0 prev value rest []
  rw [List.append_nil] at happend
  refine ⟨_, _, happend, fun c hc => ?_, fun c hc => hP.not_secret_of_mem_subBefore hc hrest⟩
  rcases Pass.mem_of_mem_subBefore hc with hc | ⟨_, _, m, -, hc⟩
  · exact hvalue c hc
  · exact isValueChar_of_mem_redacted (hP.write m ▸ hc)

/-- A pass leaves a name and a separator, before which its scan stops. -/
theorem IsApart.exists_of_stops {P : Pass Traced} (hP : IsApart W P) {x w y out : List Traced}
    (hmiss : ∀ prev next, P.Misses prev w next) (hne : w ≠ [])
    (hhead : ∃ c ∈ (w ++ y).head?, Regex.isIn isAlnum c = true) (hx : ∀ c ∈ x, c.secret = false)
    (hstops : P.Stops none x (w ++ y)) (hout : P.sub w.getLast? y = out) :
    ∃ x', P.subBefore (w ++ y) 0 none x = x' ∧ P.sub x.getLast? (w ++ y) = w ++ out ∧
      P.sub none (x ++ (w ++ y)) = x' ++ (w ++ out) ∧
      Regex.isWordAt W.isWord x'.getLast? = Regex.isWordAt W.isWord x.getLast? ∧
      ∀ c ∈ x', c.secret = false := by
  have hsub : P.sub x.getLast? (w ++ y) = w ++ out := by
    rw [(hmiss _ y).sub_append_of_ne_nil hne, hout]
  refine ⟨_, rfl, hsub, ?_, hP.isWordAt_subBefore hstops hhead,
    fun c hc => hP.not_secret_of_mem_subBefore hc hx⟩
  rw [Pass.sub_append hstops, Option.or_none, hsub]

/-- **What is covered by a header is taken.** -/
theorem gone_of_coveredBy {start n s between : List Traced} (hstart : ∀ c ∈ start, c.secret = false)
    (hunmarked : ∀ c ∈ n ++ s, c.secret = false) (hafter : ∀ c ∈ after, c.secret = false)
    (h : CoveredBy W start n s between secret after) :
    ∀ c ∈ redactText W (start ++ (n ++ (s ++ (between ++ (secret ++ after))))),
      c.secret = false := by
  obtain ⟨hprev, hn, hs, ⟨hstops₁, hstops₂, hstops₃, hstops, -⟩, hkept⟩ := h
  have hne : n ++ s ≠ [] := List.append_ne_nil_of_right_ne_nil _ hs.ne_nil
  have hassoc : ∀ y, n ++ (s ++ y) = (n ++ s) ++ y := fun y => (List.append_assoc n s y).symm
  have hhead : ∀ y, ∃ c ∈ ((n ++ s) ++ y).head?, Regex.isIn isAlnum c = true := by
    intro y
    rw [List.append_assoc]
    exact hn.exists_head (s ++ y)
  rw [hassoc] at hstops₁ hstops₂ hstops₃ hstops ⊢
  -- what the patterns make of the text behind the separator
  obtain ⟨v₁, r₁, hv₁, hvalue₁, hrest₁⟩ : ∃ value rest,
      (bearer W).sub (n ++ s).getLast? (between ++ (secret ++ after)) = value ++ rest ∧
      (∀ c ∈ value, Regex.isIn isValueChar c = true) ∧ ∀ c ∈ rest, c.secret = false := by
    have happend := (bearer W).subBefore_append 0 (n ++ s).getLast? (between ++ secret) after []
    rw [List.append_nil, List.append_assoc] at happend
    have hstops' : (bearer W).Stops none (start ++ (n ++ s)) ((between ++ secret) ++ after) := by
      rw [List.append_assoc]
      exact Pass.stops_append hstops₁ (bearer_misses hn hs).stops
    rw [Pass.kept_of_stops hstops', List.getLast?_append_of_ne_nil _ hne] at hkept
    refine ⟨_, _, happend, fun c hc => ?_, fun c hc =>
      bearer_isApart.not_secret_of_mem_subBefore hc hafter⟩
    rcases Pass.mem_kept_or_written hc with hc | ⟨_, _, m, -, hc⟩
    · exact hkept c hc
    · exact isValueChar_of_mem_redacted hc
  obtain ⟨v₂, r₂, hv₂, hvalue₂, hrest₂⟩ :=
    jwt_isApart.exists_sub_append (W := W) hvalue₁ hrest₁ (n ++ s).getLast?
  obtain ⟨v₃, r₃, hv₃, hvalue₃, hrest₃⟩ :=
    accessKey_isApart.exists_sub_append (W := W) hvalue₂ hrest₂ (n ++ s).getLast?
  -- and of the text before the name
  obtain ⟨x₁, hx₁, hsub₁, htext₁, hword₁, hmark₁⟩ := bearer_isApart.exists_of_stops
    (fun _ _ => bearer_misses hn hs) hne (hhead _) hstart hstops₁ hv₁
  rw [hx₁, hsub₁] at hstops₂ hstops₃ hstops
  obtain ⟨x₂, hx₂, hsub₂, htext₂, hword₂, hmark₂⟩ := jwt_isApart.exists_of_stops
    (fun _ _ => jwt_misses hn hs) hne (hhead _) hmark₁ hstops₂ hv₂
  rw [hx₂, hsub₂] at hstops₃ hstops
  obtain ⟨x₃, hx₃, hsub₃, htext₃, hword₃, hmark₃⟩ := accessKey_isApart.exists_of_stops
    (fun _ _ => accessKey_misses hn hs) hne (hhead _) hmark₂ hstops₃ hv₃
  rw [hx₃, hsub₃] at hstops
  intro c hc
  have hc : c ∈ (header W).sub none ((accessKey W).sub none ((jwt W).sub none
      ((bearer W).sub none (start ++ ((n ++ s) ++ (between ++ (secret ++ after))))))) := hc
  rw [htext₁, htext₂, htext₃, Pass.sub_append hstops] at hc
  rcases List.mem_append.mp hc with hc | hc
  · rcases Pass.mem_subBefore_of_stops (fun _ _ _ h => mem_write_header h) hstops c hc with hc | hc
    · exact hmark₃ c hc
    · exact not_secret_of_mem_redacted hc
  · rw [← hassoc] at hc
    refine not_secret_of_mem_cover hn hs ?_ hunmarked hvalue₃ hrest₃ hc
    rw [Option.or_none, hword₃, hword₂, hword₁, hprev]

end Covering

end NextBallUp.Logging
