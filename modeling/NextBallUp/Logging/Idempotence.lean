import NextBallUp.Lib.Cuts
import NextBallUp.Logging.Patterns

/-!
# Redaction a second time

What has been redacted is not changed by another redaction. Each of the four passes writes brackets
around its block, and leaves a boundary of a word where it wrote one. So a match in what it makes is
a match in what it was given, and only the headers match again, with the block as the value.

## Main definitions

* `Apart`: a part that is cut out is apart from the words around it
* `IsApart`: what a pass finds has no brackets, and is found wherever it is a word by itself

## Main results

* `IsApart.misses`: **a text from which parts are cut out** matches where the text before does
* `header_sub_sub`: the pattern of the headers finds its own block, and writes it again
* `redactText_redactText`, `redactLogValue_redactLogValue`, `filter_filter`: **redacting a second
  time changes nothing**
-/

namespace NextBallUp.Logging

section Cuts

variable {χ : Type} [Writable χ] {W : WordTable} {prev : Option χ} {text out : List χ} {c : χ}

/-! ### The block -/

theorem redacted_codes : "[REDACTED]".codePoints = [91, 82, 69, 68, 65, 67, 84, 69, 68, 93] := by
  decide

theorem head?_redacted : (redacted : List χ).head? = some (Writable.ofCode 91) := by
  rw [redacted, redacted_codes]
  rfl

theorem getLast?_redacted : (redacted : List χ).getLast? = some (Writable.ofCode 93) := by
  rw [redacted, redacted_codes]
  rfl

theorem code_of_mem_redacted (h : c ∈ redacted) :
    HasCode.code c ∈ [91, 82, 69, 68, 65, 67, 84, 69, 68, 93] := by
  obtain ⟨d, hd, rfl⟩ := List.mem_map.mp h
  rwa [Writable.code_ofCode, ← redacted_codes]

theorem isValueChar_of_mem_redacted (h : c ∈ redacted) : Regex.isIn isValueChar c = true :=
  (by decide : ∀ n ∈ [91, 82, 69, 68, 65, 67, 84, 69, 68, 93], isValueChar n = true) _
    (code_of_mem_redacted h)

/-! ### What is cut out -/

variable (W) in
/-- A part that is cut out is apart from the words around it. -/
def Apart (prev : Option χ) (part rest : List χ) : Prop :=
  part ≠ [] ∧ (∀ c ∈ part.head?, Regex.isIn isValueChar c = true) ∧
    Regex.isWordAt W.isWord prev = false ∧
    ∀ c ∈ rest.head?, Regex.isIn isAlnum c = true → Regex.isWordAt W.isWord part.getLast? = false

variable (W) in
/-- What a pass finds has no brackets, and is found wherever it is a word by itself. -/
structure IsApart (P : Pass χ) : Prop where
  write : ∀ m, P.write m = redacted
  apart : ∀ {prev text m}, P.find prev text = some m → Apart W prev m.taken m.rest
  brackets : ∀ {prev text m}, P.find prev text = some m →
    ∀ c ∈ m.taken, HasCode.code c ≠ 91 ∧ HasCode.code c ≠ 93
  other : ∀ {prev text m}, P.find prev text = some m → ∃ c ∈ m.taken, c ∉ redacted
  head : ∀ {prev text m}, P.find prev text = some m → ∀ c ∈ m.taken.head?,
    Regex.isIn isAlnum c = true
  again : ∀ {prev text m prev' rest}, P.find prev text = some m →
    Regex.isWordAt W.isWord prev' = false →
    (rest.head? = m.rest.head? ∨ Regex.isWordAt W.isWord m.taken.getLast? = false ∧
      Regex.isWordAt W.isWord m.rest.head? = false) → P.find prev' (m.taken ++ rest) ≠ none

/-- **A text from which parts are cut out** matches where the text before does. -/
theorem IsApart.misses {P : Pass χ} (hP : IsApart W P)
    (h : Cuts redacted (fun prev text => P.find prev text = none) (Apart W) prev text out) :
    P.Misses prev out [] := by
  refine Pass.misses_of_forall fun z c v hout => ?_
  by_contra hfind
  obtain ⟨m, hm⟩ := Option.ne_none_iff_exists'.mp hfind
  have htaken := P.taken_append_rest hm
  rw [List.append_nil] at htaken
  rw [hout, ← htaken] at h
  have hbracket : ∀ n, n = 91 ∨ n = 93 → (Writable.ofCode n : χ) ∉ m.taken := by
    intro n hn hmem
    have hne := hP.brackets hm _ hmem
    rw [Writable.code_ofCode] at hne
    omega
  obtain ⟨d, hd, hdb⟩ := hP.other hm
  obtain ⟨x, y, -, hkeep, hrest, hlast⟩ := h.exists_of_append (fun _ _ _ h => h.1) head?_redacted
    getLast?_redacted (hbracket 91 (.inl rfl)) (hbracket 93 (.inr rfl)) hd hdb
  have htakenlast := Pass.getLast?_taken_or (x.getLast?.or prev) hm
  refine hP.again hm ?_ ?_ hkeep
  · rcases hlast with hlast | ⟨prev', part, hcut, hlast⟩
    · rw [← hlast]
      exact (hP.apart hm).2.2.1
    · obtain ⟨c, t, ht⟩ := Pass.exists_cons_of_find hm
      rw [← hlast]
      refine hcut.2.2.2 c (by rw [ht]; rfl) (hP.head hm c (by rw [ht]; rfl))
  · rw [htakenlast] at hrest
    generalize m.rest = rest at hrest
    cases hrest with
    | nil => exact .inl rfl
    | keep => exact .inl rfl
    | cut hcut _ =>
      refine .inr ⟨hcut.2.2.1, ?_⟩
      rw [List.head?_append, head?_redacted]
      exact show W.isWord (HasCode.code (Writable.ofCode 91 : χ)) = false by
        rw [Writable.code_ofCode, W.ascii 91 (by decide)]
        rfl

theorem not_mem_redacted {n : ℕ} (hn : n ∉ [91, 82, 69, 68, 65, 67, 84, 69, 68, 93])
    (hc : HasCode.code c = n) : c ∉ redacted := fun h => hn (hc ▸ code_of_mem_redacted h)

theorem isIn_isValueChar_of_isAlnum (h : Regex.isIn isAlnum c = true) :
    Regex.isIn isValueChar c = true := by
  have hc : HasCode.code c < 128 ∧ 48 ≤ HasCode.code c ∧ HasCode.code c ≠ 125 := by
    simp only [Regex.isIn, isAlnum, isUpper, isLower, isDigit, Bool.or_eq_true, Bool.and_eq_true,
      decide_eq_true_eq] at h
    omega
  simp only [Regex.isIn, isValueChar, isQuote, isWhitespace, Bool.not_eq_true',
    Bool.or_eq_false_iff, Bool.and_eq_false_iff, decide_eq_false_iff_not]
  omega

theorem isWord_of_isAlnum {n : ℕ} (h : isAlnum n = true) : W.isWord n = true := by
  have hn : n < 128 := by
    simp only [isAlnum, isUpper, isLower, isDigit, Bool.or_eq_true, Bool.and_eq_true,
      decide_eq_true_eq] at h
    omega
  rw [W.ascii n hn, h, Bool.true_or]

/-- What is matched has no brackets, where no set of the pattern has. -/
theorem no_brackets {r : Regex} (hopen : r.avoids 91 = true) (hclose : r.avoids 93 = true)
    {l rest : List χ} {g : List (List χ)} (h : r.Matches W.isWord prev l rest g) :
    ∀ c ∈ l, HasCode.code c ≠ 91 ∧ HasCode.code c ≠ 93 := fun c hc =>
  ⟨Regex.code_ne_of_matches hopen h c hc, Regex.code_ne_of_matches hclose h c hc⟩

/-- What is cut out, if its end is the end of a word. -/
theorem apart_of_boundary {part rest : List χ} (hne : part ≠ [])
    (hhead : ∀ c ∈ part.head?, Regex.isIn isAlnum c = true)
    (hprev : Regex.isWordAt W.isWord prev = false)
    (hend : Regex.isWordAt W.isWord part.getLast? ≠ Regex.isWordAt W.isWord rest.head?) :
    Apart W prev part rest := by
  refine ⟨hne, fun c hc => isIn_isValueChar_of_isAlnum (hhead c hc), hprev, fun c hc halnum => ?_⟩
  have hword : Regex.isWordAt W.isWord rest.head? = true := by
    rw [show rest.head? = some c from hc]
    exact isWord_of_isAlnum halnum
  rw [hword] at hend
  exact Bool.eq_false_iff.mpr hend

theorem bearer_isApart : IsApart W (bearer W : Pass χ) where
  write _ := rfl
  apart h := by
    obtain ⟨hprev, htaken, hrest⟩ := bearer_of_find h
    refine ⟨Pass.taken_ne_nil _ h, fun c hc => isIn_isValueChar_of_isAlnum (htaken.head c hc),
      hprev, fun c hc halnum => (hrest c hc ?_).elim⟩
    rw [Regex.isIn, isTokenChar, show isAlnum (HasCode.code c) = true from halnum]
    rfl
  brackets h := no_brackets (by decide) (by decide) (Regex.matches_of_first h).2
  other h := by
    obtain ⟨-, ⟨b, w, t, ht, -, hw, -⟩, -⟩ := bearer_of_find h
    obtain ⟨c, w, rfl⟩ := List.exists_cons_of_ne_nil hw.1
    refine ⟨c, by rw [ht]; simp, fun hmem => ?_⟩
    have hspace := hw.2 c List.mem_cons_self
    have hcode := code_of_mem_redacted hmem
    have hnone : ∀ n ∈ [91, 82, 69, 68, 65, 67, 84, 69, 68, 93], isWhitespace n = false := by decide
    exact Bool.false_ne_true ((hnone _ hcode).symm.trans hspace)
  head h := (bearer_of_find h).2.1.head
  again h hprev _ := by
    obtain ⟨m, hm⟩ := Regex.exists_first
      (bearer_matches_iff.mpr ⟨hprev, (bearer_of_find h).2.1, rfl⟩)
    exact Option.ne_none_iff_exists'.mpr ⟨m, hm⟩

theorem jwt_isApart : IsApart W (jwt W : Pass χ) where
  write _ := rfl
  apart h := by
    obtain ⟨hprev, htaken, hend⟩ := jwt_of_find h
    refine apart_of_boundary (Pass.taken_ne_nil _ h) (fun c hc => ?_) hprev hend
    rw [Regex.isIn, htaken.head c hc]
    rfl
  brackets h := no_brackets (by decide) (by decide) (Regex.matches_of_first h).2
  other h := by
    obtain ⟨c, t, ht⟩ := Pass.exists_cons_of_find h
    have hc := (jwt_of_find h).2.1.head c (by rw [ht]; rfl)
    exact ⟨c, by rw [ht]; exact List.mem_cons_self, not_mem_redacted (by decide) hc⟩
  head h c hc := by
    rw [Regex.isIn, (jwt_of_find h).2.1.head c hc]
    rfl
  again := @fun prev text m prev' rest h hprev hrest => by
    obtain ⟨-, htaken, hend⟩ := jwt_of_find h
    have hend' : Regex.isWordAt W.isWord m.taken.getLast? ≠ Regex.isWordAt W.isWord rest.head? := by
      rcases hrest with hrest | ⟨hlast, hnext⟩
      · rwa [← hrest] at hend
      · exact (hend (hlast.trans hnext.symm)).elim
    obtain ⟨m', hm'⟩ := Regex.exists_first (jwt_matches_iff.mpr ⟨hprev, htaken, hend', rfl⟩)
    exact Option.ne_none_iff_exists'.mpr ⟨m', hm'⟩

theorem accessKey_isApart : IsApart W (accessKey W : Pass χ) where
  write _ := rfl
  apart h := by
    obtain ⟨hprev, htaken, hend⟩ := accessKey_of_find h
    refine apart_of_boundary (Pass.taken_ne_nil _ h) (fun c hc => ?_) hprev ?_
    · rw [Regex.isIn, htaken.head c hc]
      rfl
    · rw [htaken.last, hend]
      exact Bool.false_ne_true.symm
  brackets h := no_brackets (by decide) (by decide) (Regex.matches_of_first h).2
  other h := by
    obtain ⟨c, d, e, t, ht, -, he⟩ := (accessKey_of_find h).2.1.start
    exact ⟨e, by rw [ht]; simp, not_mem_redacted (by decide) he⟩
  head h c hc := by
    rw [Regex.isIn, (accessKey_of_find h).2.1.head c hc]
    rfl
  again := @fun prev text m prev' rest h hprev hrest => by
    obtain ⟨-, htaken, hend⟩ := accessKey_of_find h
    have hend' : Regex.isWordAt W.isWord rest.head? = false := by
      rcases hrest with hrest | ⟨hlast, -⟩
      · rw [hrest, hend]
      · exact (Bool.false_ne_true (hlast.symm.trans htaken.last)).elim
    obtain ⟨m', hm'⟩ := Regex.exists_first (accessKey_matches_iff.mpr ⟨hprev, htaken, hend', rfl⟩)
    exact Option.ne_none_iff_exists'.mpr ⟨m', hm'⟩

/-! ### The pattern of the headers -/

theorem header_cuts (prev : Option χ) (text : List χ) :
    Cuts redacted (fun _ _ => True) (Apart W) prev text ((header W).sub prev text) := by
  induction prev, text using (header W : Pass χ).induction with
  | nil prev => exact .nil prev
  | char prev c text h ih =>
    rw [Pass.sub_cons h]
    exact .keep trivial ih
  | found prev text m h ih =>
    obtain ⟨-, n, s, v, htext, htaken, hg, -, hs, hv, hrest⟩ := header_find_iff.mp h
    have hwrite : (header W).write m = (n ++ s) ++ redacted := by
      rw [show (header W).write m = m.groups.flatten ++ redacted from rfl, hg]
      simp
    have hlast : m.taken.getLast? = v.getLast? := by
      rw [htaken, ← List.append_assoc, List.getLast?_append_of_ne_nil _ hv.1]
    rw [Pass.sub_of_find h, hwrite, htext, ← List.append_assoc, List.append_assoc (n ++ s)]
    refine Cuts.keep_append (.cut ⟨hv.1, ?_, ?_, ?_⟩ (hlast ▸ ih))
    · intro c hc
      exact hv.2 c (List.mem_of_mem_head? hc)
    · rw [List.getLast?_append, Option.or_assoc]
      exact isWordAt_getLast?_separator hs _
    · exact fun c hc halnum => (hrest c hc (isIn_isValueChar_of_isAlnum halnum)).elim

theorem header_find_eq_none (hc : ¬ Regex.isIn isValueChar c = true) :
    (header W).find prev (c :: text) = none := by
  by_contra hfind
  obtain ⟨m, hm⟩ := Option.ne_none_iff_exists'.mp hfind
  obtain ⟨-, n, s, v, htext, -, -, hn, -⟩ := header_find_iff.mp hm
  obtain ⟨d, t, rfl⟩ : ∃ d t, n = d :: t := by
    cases n with
    | nil =>
      have hword : Regex.isWordAt W.isWord (([] : List χ) ++ []).head? = true :=
        isWordAt_name_append hn
      exact (Bool.false_ne_true hword).elim
    | cons d t => exact ⟨d, t, rfl⟩
  obtain ⟨rfl, -⟩ := List.cons.inj htext
  exact hc (isIn_isValueChar_of_isAlnum (hn.head c rfl))

theorem code_ne_of_mem_name (W : WordTable) {d : ℕ} (hname : namePattern.avoids d = true)
    (hsep : separatorPattern.avoids d = true) {n s : List χ} (hn : IsName n) (hs : IsSeparator s) :
    ∀ c ∈ n ++ s, HasCode.code c ≠ d := by
  have hname' : namePattern.Matches W.isWord none n [] [] := name_matches_iff.mpr ⟨hn, rfl⟩
  have hsep' : separatorPattern.Matches W.isWord none s [] [] := separator_matches_iff.mpr ⟨hs, rfl⟩
  exact fun c hc => (List.mem_append.mp hc).elim (Regex.code_ne_of_matches hname hname' c)
    (Regex.code_ne_of_matches hsep hsep' c)

/-- A name and a separator have no brackets. -/
theorem code_ne_of_isName (W : WordTable) {n s : List χ} (hn : IsName n) (hs : IsSeparator s) :
    ∀ c ∈ n ++ s, HasCode.code c ≠ 91 ∧ HasCode.code c ≠ 93 := fun c hc =>
  ⟨code_ne_of_mem_name W (by decide) (by decide) hn hs c hc,
    code_ne_of_mem_name W (by decide) (by decide) hn hs c hc⟩

/-- What the pattern of the headers does not find, it does not find in what it makes. -/
theorem header_find_sub (h : (header W).find prev (c :: text) = none) :
    (header W).find prev (c :: (header W).sub (some c) text) = none := by
  by_contra hfind
  obtain ⟨m, hm⟩ := Option.ne_none_iff_exists'.mp hfind
  obtain ⟨hprev, n, s, v, hout, -, -, hn, hs, hv, -⟩ := header_find_iff.mp hm
  have hcuts := header_cuts (W := W) prev (c :: text)
  rw [Pass.sub_cons h, hout, ← List.append_assoc] at hcuts
  have hopen : (Writable.ofCode 91 : χ) ∉ n ++ s := fun hmem =>
    (code_ne_of_isName W hn hs _ hmem).1 (Writable.code_ofCode 91)
  obtain ⟨y, hy, hrest, -⟩ := hcuts.exists_of_append_left head?_redacted hopen
  -- what comes next is kept, or begins a part that is cut out
  have hhead : ∃ d t, y = d :: t ∧ Regex.isIn isValueChar d = true := by
    obtain ⟨d, v, rfl⟩ := List.exists_cons_of_ne_nil hv.1
    rw [List.cons_append] at hrest
    generalize hout' : d :: (v ++ m.rest) = out at hrest
    cases hrest with
    | nil => cases hout'
    | keep =>
      obtain ⟨rfl, -⟩ := List.cons.inj hout'
      exact ⟨_, _, rfl, hv.2 _ List.mem_cons_self⟩
    | cut hcut _ =>
      obtain ⟨e, part, hpart⟩ := List.exists_cons_of_ne_nil hcut.1
      rw [hpart]
      exact ⟨e, _, rfl, hcut.2.1 e (by rw [hpart]; rfl)⟩
  obtain ⟨d, t, rfl, hd⟩ := hhead
  have hmatches : headerPattern.Matches W.isWord prev (n ++ (s ++ [d])) t [n, s] :=
    header_matches_iff.mpr ⟨hprev, n, s, [d], rfl, hn, hs, ⟨List.cons_ne_nil _ _,
      fun e he => List.mem_singleton.mp he ▸ hd⟩, rfl⟩
  obtain ⟨m', hm'⟩ := Regex.exists_first hmatches
  have htext : c :: text = n ++ (s ++ [d]) ++ t := by
    rw [hy]
    simp
  rw [htext] at h
  exact Option.some_ne_none m' (hm'.symm.trans h)

/-- **The pattern of the headers** finds its own block, and writes it again. -/
theorem header_sub_sub (prev : Option χ) (text : List χ) :
    (header W).sub prev ((header W).sub prev text) = (header W).sub prev text := by
  induction prev, text using (header W : Pass χ).induction with
  | nil prev => rfl
  | char prev c text h ih => rw [Pass.sub_cons h, Pass.sub_cons (header_find_sub h), ih]
  | found prev text m h ih =>
    obtain ⟨hprev, n, s, v, htext, htaken, hg, hn, hs, hv, hrest⟩ := header_find_iff.mp h
    have hsub : ∀ prev', (header W).sub prev' ((header W).sub m.taken.getLast? m.rest) =
        (header W).sub m.taken.getLast? m.rest := by
      intro prev'
      cases hr : m.rest with
      | nil => rfl
      | cons d r =>
        have hd := hrest d (by rw [hr]; rfl)
        rw [hr] at ih
        rw [Pass.sub_cons (header_find_eq_none hd), Pass.sub_cons (header_find_eq_none hd)] at ih
        rw [Pass.sub_cons (header_find_eq_none hd), Pass.sub_cons (header_find_eq_none hd),
          (List.cons.inj ih).2]
    have hwrite : ∀ m' : Match χ, m'.groups = [n, s] →
        (header W).write m' = n ++ (s ++ redacted) := by
      intro m' hg
      rw [show (header W).write m' = m'.groups.flatten ++ redacted from rfl, hg]
      simp
    have hfind : (header W).find prev ((header W).sub prev text) =
        some ⟨n ++ (s ++ redacted), (header W).sub m.taken.getLast? m.rest, [n, s]⟩ := by
      refine header_find_iff.mpr ⟨hprev, n, s, redacted, ?_, rfl, rfl, hn, hs,
        ⟨?_, fun _ => isValueChar_of_mem_redacted⟩, ?_⟩
      · rw [Pass.sub_of_find h, hwrite m hg]
        simp
      · refine List.ne_nil_of_mem (a := Writable.ofCode 91) ?_
        exact List.mem_of_mem_head? head?_redacted
      · cases hr : m.rest with
        | nil => simp [Pass.sub_nil]
        | cons d r =>
          have hd := hrest d (by rw [hr]; rfl)
          rw [Pass.sub_cons (header_find_eq_none hd)]
          exact fun c hc => Option.some.inj hc ▸ hd
    rw [Pass.sub_of_find hfind, hsub, hwrite _ rfl, Pass.sub_of_find h, hwrite m hg]

/-! ### The four passes -/

theorem IsApart.cuts_sub {P : Pass χ} (hP : IsApart W P) (prev : Option χ) (text : List χ) :
    Cuts redacted (fun prev text => P.find prev text = none) (Apart W) prev text
      (P.sub prev text) :=
  Pass.cuts_sub hP.write (fun _ _ _ h => hP.apart h) prev text

theorem IsApart.misses_sub {P : Pass χ} (hP : IsApart W P) (prev : Option χ) (text : List χ) :
    P.Misses prev (P.sub prev text) [] := hP.misses (hP.cuts_sub prev text)

/-- What a pass does not find, it does not find behind a later pass. -/
theorem IsApart.misses_of_cuts {P : Pass χ} (hP : IsApart W P) {keeps : Option χ → List χ → Prop}
    (hcuts : Cuts redacted keeps (Apart W) prev text out) (hmiss : P.Misses prev text []) :
    P.Misses prev out [] :=
  hP.misses (hcuts.of_misses (fun _ _ _ h => h.1) hmiss)

/-- **Redacting a text a second time** changes nothing. -/
theorem redactText_redactText (text : List χ) :
    redactText W (redactText W text) = redactText W text := by
  let text₁ := (bearer W).sub none text
  let text₂ := (jwt W).sub none text₁
  let text₃ := (accessKey W).sub none text₂
  have hheader := header_cuts (W := W) none text₃
  have hkey := accessKey_isApart.cuts_sub (W := W) none text₂
  have hjwt := jwt_isApart.cuts_sub (W := W) none text₁
  have hbearer : (bearer W).Misses none (redactText W text) [] :=
    bearer_isApart.misses_of_cuts hheader (bearer_isApart.misses_of_cuts hkey
      (bearer_isApart.misses_of_cuts hjwt (bearer_isApart.misses_sub none text)))
  have hjwt : (jwt W).Misses none (redactText W text) [] :=
    jwt_isApart.misses_of_cuts hheader (jwt_isApart.misses_of_cuts hkey
      (jwt_isApart.misses_sub none text₁))
  have hkey : (accessKey W).Misses none (redactText W text) [] :=
    accessKey_isApart.misses_of_cuts hheader (accessKey_isApart.misses_sub none text₂)
  calc redactText W (redactText W text)
    _ = (header W).sub none ((accessKey W).sub none ((jwt W).sub none ((bearer W).sub none
          (redactText W text)))) := rfl
    _ = (header W).sub none (redactText W text) := by
      rw [hbearer.sub_eq, hjwt.sub_eq, hkey.sub_eq]
    _ = redactText W text := header_sub_sub none text₃

end Cuts

/-! ### Values and records -/

section Values

variable {κ ο : Type} (W : WordTable)

mutual

/-- **Redacting a value a second time** changes nothing. -/
theorem redactLogValue_redactLogValue : ∀ value : LogValue κ ο,
    redactLogValue W (redactLogValue W value) = redactLogValue W value
  | .str s => congrArg LogValue.str (redactText_redactText s)
  | .tuple items => congrArg LogValue.tuple (redactItems_redactItems items)
  | .list items => congrArg LogValue.list (redactItems_redactItems items)
  | .dict items => congrArg LogValue.dict (redactEntries_redactEntries items)
  | .other _ => rfl

theorem redactItems_redactItems : ∀ items : List (LogValue κ ο),
    redactItems W (redactItems W items) = redactItems W items
  | [] => rfl
  | item :: items => congrArg₂ List.cons (redactLogValue_redactLogValue item)
      (redactItems_redactItems items)

theorem redactEntries_redactEntries : ∀ items : List (κ × LogValue κ ο),
    redactEntries W (redactEntries W items) = redactEntries W items
  | [] => rfl
  | (key, item) :: items => congrArg₂ List.cons
      (congrArg (Prod.mk key) (redactLogValue_redactLogValue item))
      (redactEntries_redactEntries items)

end

/-- A record that was filtered is written as it is. -/
theorem filter_filter (record : LogRecord) : filter W (filter W record) = filter W record := by
  simp [filter, redactText_redactText]

end Values

end NextBallUp.Logging
