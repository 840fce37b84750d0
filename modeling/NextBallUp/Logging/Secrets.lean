import NextBallUp.Logging.Patterns

/-!
# Secrets in a message

Where a secret stands in a message, what it means that redaction takes it out, and when it does.
A secret is followed through the redaction by marking its characters: a message with marks is
redacted as the message itself is (`codes_redactText`), and a mark is only left where the character
is.

## Main definitions

* `Gone`: no character of a part of a message is left
* `Hidden`: **when redaction takes out a part of a message**, said of the message before
* `SecretAt`: the values of the headers that are named, and where they stand

## Main results

* `redactLogValue_traced`: the marks do not change what is written
* `hidden_codes_iff`: the condition is one on the code points
* `SecretAt.edges`: a secret ends where no word, and none of the tokens that are found, goes on
-/

namespace NextBallUp.Logging

/-! ### Marks -/

/-- A character of a message, and if it is one of a secret. -/
structure Traced where
  char : ℕ
  secret : Bool
deriving DecidableEq

instance : Writable Traced where
  code := Traced.char
  ofCode c := ⟨c, false⟩
  code_ofCode _ := rfl

def traced (secret : Bool) (text : List ℕ) : List Traced := text.map (⟨·, secret⟩)

theorem codes_traced (secret : Bool) (text : List ℕ) : codes (traced secret text) = text := by
  have hcode : (HasCode.code : Traced → ℕ) ∘ (⟨·, secret⟩) = id := rfl
  rw [traced, codes, List.map_map, hcode, List.map_id]

/-- Of a secret between two texts, redaction leaves nothing. -/
def Gone (W : WordTable) (before secret after : List ℕ) : Prop :=
  ∀ c ∈ redactText W (traced false before ++ (traced true secret ++ traced false after)),
    c.secret = false

instance (W : WordTable) (before secret after : List ℕ) : Decidable (Gone W before secret after) :=
  inferInstanceAs (Decidable (∀ c ∈ _, _))

/-- The message with marks is redacted as the message itself. -/
theorem redactLogValue_traced {κ ο : Type} (W : WordTable) (before secret after : List ℕ) :
    (redactLogValue W (.str (before ++ (secret ++ after))) : LogValue κ ο) = .str (codes
      (redactText W (traced false before ++ (traced true secret ++ traced false after)))) := by
  have hcodes : codes (traced false before ++ (traced true secret ++ traced false after)) =
      before ++ (secret ++ after) := by
    rw [codes_append, codes_append, codes_traced, codes_traced, codes_traced]
  rw [codes_redactText, hcodes]
  rfl

/-! ### What is hidden -/

section Hidden

variable {χ : Type} [Writable χ] (W : WordTable)

/-- A secret that the patterns find by what it is. -/
def IsKnown (secret : List χ) : Prop :=
  IsJwt secret ∧ Regex.isWordAt W.isWord secret.getLast? = true ∨ IsAccessKey secret

/-- The scans of all patterns get to a name that a separator follows, and between the separator and
the end of a secret are only characters of a value, the bearer tokens aside. -/
def CoveredBy (start name sep between secret after : List χ) : Prop :=
  Regex.isWordAt W.isWord start.getLast? = false ∧ IsName name ∧ IsSeparator sep ∧
    Pass.Reaches (secretPatterns W) start (name ++ (sep ++ (between ++ (secret ++ after)))) ∧
    ∀ c ∈ (bearer W).kept (start ++ (name ++ sep)) (between ++ secret) after,
      Regex.isIn isValueChar c = true

/-- A header that is named covers a secret. -/
def Covered (before secret after : List χ) : Prop :=
  ∃ start name sep between, before = start ++ (name ++ (sep ++ between)) ∧
    CoveredBy W start name sep between secret after

/-- **When redaction takes out a secret**: it is in bearer tokens, or is a token or a key of its
own, or is covered by a header. -/
def Hidden (before secret after : List χ) : Prop :=
  (bearer W).kept before secret after = [] ∨
    ((bearer W).kept before secret after = secret ∧ IsKnown W secret) ∨
    Covered W before secret after

variable {W}

theorem spells_codes_iff {same : ℕ → ℕ → Bool} {w : List ℕ} {l : List χ} :
    Regex.Spells same w (codes l) ↔ Regex.Spells same w l := List.forall₂_map_right_iff

theorem isName_codes_iff {l : List χ} : IsName (codes l) ↔ IsName l := by
  simp only [IsName, spells_codes_iff]

theorem isSeparator_codes_iff (W : WordTable) {l : List χ} :
    IsSeparator (codes l) ↔ IsSeparator l := by
  have hcodes : (∃ g, separatorPattern.Matches W.isWord none (codes l) [] g) ↔
      ∃ g, separatorPattern.Matches W.isWord none l [] g := Regex.matches_alone_codes_iff
  simpa [separator_matches_iff] using hcodes

theorem isKnown_iff {l : List χ} : IsKnown W l ↔
    (∃ g, jwtPattern.Matches W.isWord none l [] g) ∨
      ∃ g, accessKeyPattern.Matches W.isWord none l [] g := by
  have hnone : Regex.isWordAt W.isWord (none : Option χ) = false := rfl
  simp [IsKnown, jwt_matches_iff, accessKey_matches_iff, hnone]

theorem isKnown_codes_iff {l : List χ} : IsKnown W (codes l) ↔ IsKnown W l := by
  rw [isKnown_iff, isKnown_iff, Regex.matches_alone_codes_iff, Regex.matches_alone_codes_iff]

/-- A secret that is kept as a whole is not touched. -/
theorem kept_eq_iff {before secret after : List χ} :
    (bearer W).kept before secret after = secret ↔
      ((bearer W).kept before secret after).length = secret.length := by
  refine ⟨congrArg List.length, fun h => ?_⟩
  rcases eq_or_ne secret [] with rfl | hne
  · rfl
  · obtain ⟨hpending, hmiss⟩ := Pass.misses_of_length_kept hne h
    rw [Pass.kept, hpending]
    exact hmiss.erase.subBefore_eq

theorem coveredBy_codes_iff {start name sep between secret after : List χ} :
    CoveredBy W (codes start) (codes name) (codes sep) (codes between) (codes secret)
      (codes after) ↔ CoveredBy W start name sep between secret after := by
  have hprev : Regex.isWordAt W.isWord (codes start).getLast? =
      Regex.isWordAt W.isWord start.getLast? := by
    rw [getLast?_codes, Regex.isWordAt_map_code]
  have hkept := (bearer_agrees : Pass.Agrees (bearer W : Pass χ) (bearer W)).kept
    (start ++ (name ++ sep)) (between ++ secret) after
  have hreaches := Pass.reaches_codes_iff (secretPatterns_agree (χ := χ) (W := W)) start
    (name ++ (sep ++ (between ++ (secret ++ after))))
  simp only [codes_append] at hkept hreaches
  rw [CoveredBy, CoveredBy, hprev, isName_codes_iff, isSeparator_codes_iff W, hreaches, hkept,
    codes, List.forall_mem_map]
  rfl

theorem covered_codes_iff {before secret after : List χ} :
    Covered W (codes before) (codes secret) (codes after) ↔ Covered W before secret after := by
  constructor
  · rintro ⟨_, _, _, _, hbefore, hcovered⟩
    obtain ⟨start, u, rfl, rfl, hu⟩ := List.map_eq_append_iff.mp hbefore
    obtain ⟨name, v, rfl, rfl, hv⟩ := List.map_eq_append_iff.mp hu
    obtain ⟨sep, between, rfl, rfl, rfl⟩ := List.map_eq_append_iff.mp hv
    exact ⟨start, name, sep, between, rfl, coveredBy_codes_iff.mp hcovered⟩
  · rintro ⟨start, name, sep, between, rfl, hcovered⟩
    refine ⟨codes start, codes name, codes sep, codes between, ?_, coveredBy_codes_iff.mpr hcovered⟩
    simp only [codes_append]

/-- **The condition is one on the code points.** -/
theorem hidden_codes_iff {before secret after : List χ} :
    Hidden W (codes before) (codes secret) (codes after) ↔ Hidden W before secret after := by
  have hkept := (bearer_agrees : Pass.Agrees (bearer W : Pass χ) (bearer W)).kept before secret
    after
  have hlength : (codes ((bearer W).kept before secret after)).length = (codes secret).length ↔
      ((bearer W).kept before secret after).length = secret.length := by
    rw [codes, codes, List.length_map, List.length_map]
  rw [Hidden, Hidden, covered_codes_iff, isKnown_codes_iff, kept_eq_iff, kept_eq_iff, hkept,
    hlength, codes, List.map_eq_nil_iff]

end Hidden

/-! ### Where secrets stand -/

/-- The letters of a name in any case. -/
def anyCase (d c : ℕ) : Bool := c = d || (isLower d && c + 32 = d)

/-- A value ends before a character that is not of a word, nor a hyphen or a dot. -/
def IsEdge (W : WordTable) (c : ℕ) : Prop := W.isWord c = false ∧ c ≠ 45 ∧ c ≠ 46

instance (W : WordTable) (c : ℕ) : Decidable (IsEdge W c) :=
  inferInstanceAs (Decidable (_ ∧ _ ∧ _))

/-- The value of a header stands behind `name: `, or is quoted and stands behind the quoted name. -/
inductive ValueAt (W : WordTable) (name : String) : List ℕ → List ℕ → List ℕ → Prop
  | plain {before shown gap value after : List ℕ} :
      Regex.isWordAt W.isWord before.getLast? = false →
      Regex.Spells anyCase name.codePoints shown → (∀ c ∈ gap, isWhitespace c = true) →
      (∀ c ∈ after.head?, IsEdge W c) →
      ValueAt W name (before ++ (shown ++ 58 :: gap)) value after
  | quoted {before shown gap value after : List ℕ} {quote : ℕ} : isQuote quote = true →
      Regex.Spells anyCase name.codePoints shown → (∀ c ∈ gap, isWhitespace c = true) →
      ValueAt W name (before ++ (quote :: (shown ++ quote :: 58 :: (gap ++ [quote])))) value
        (quote :: after)

/-- A text that does not begin or end with a blank. -/
def IsTrimmed (text : List ℕ) : Prop :=
  (∀ c ∈ text.head?, isWhitespace c = false) ∧ ∀ c ∈ text.getLast?, isWhitespace c = false

/-- A cookie is sent as `name=value`. -/
def cookiePair (pair : List ℕ × List ℕ) : List ℕ := pair.1 ++ 61 :: pair.2

/-- The names and values of cookies have no blanks and no semicolons, and the names no `=`. -/
def IsCookie (pair : List ℕ × List ℕ) : Prop :=
  pair.1 ≠ [] ∧ (∀ c ∈ pair.1, isWhitespace c = false ∧ c ≠ 59 ∧ c ≠ 61) ∧
    ∀ c ∈ pair.2, isWhitespace c = false ∧ c ≠ 59

instance (pair : List ℕ × List ℕ) : Decidable (IsCookie pair) :=
  inferInstanceAs (Decidable (_ ∧ _ ∧ _))

/-- The secrets of the headers that are named: the credentials behind a scheme, the value of each
cookie of those that are separated by `; `, and the tokens. -/
inductive SecretAt (W : WordTable) : List ℕ → List ℕ → List ℕ → Prop
  | credentials {before scheme gap credentials after : List ℕ} :
      ValueAt W "authorization" before (scheme ++ (gap ++ credentials)) after →
      scheme ≠ [] → (∀ c ∈ scheme, isWhitespace c = false) →
      gap ≠ [] → (∀ c ∈ gap, isWhitespace c = true) → IsTrimmed credentials →
      SecretAt W (before ++ (scheme ++ gap)) credentials after
  | cookie {before name value after : List ℕ} {earlier later : List (List ℕ × List ℕ)} :
      ValueAt W "cookie" before ((earlier.map fun pair => cookiePair pair ++ [59, 32]).flatten ++
        (cookiePair (name, value) ++
          (later.map fun pair => [59, 32] ++ cookiePair pair).flatten)) after →
      (∀ pair ∈ earlier ++ (name, value) :: later, IsCookie pair) →
      SecretAt W (before ++ ((earlier.map fun pair => cookiePair pair ++ [59, 32]).flatten ++
        (name ++ [61]))) value
        ((later.map fun pair => [59, 32] ++ cookiePair pair).flatten ++ after)
  | token {name : String} {before value after : List ℕ} :
      name = "x-csrf-token" ∨ name = "x-amz-security-token" → ValueAt W name before value after →
      IsTrimmed value → SecretAt W before value after

/-! ### Where secrets end -/

variable {W : WordTable}

theorem isEdge_of_ascii {c : ℕ} (hc : c < 128) (h : isAlnum c = false ∧ c ≠ 95 ∧ c ≠ 45 ∧ c ≠ 46) :
    IsEdge W c := by
  refine ⟨?_, h.2.2⟩
  rw [W.ascii c hc, h.1, Bool.false_or]
  exact decide_eq_false h.2.1

theorem isEdge_of_isQuote {c : ℕ} (h : isQuote c = true) : IsEdge W c := by
  simp only [isQuote, Bool.or_eq_true, decide_eq_true_eq] at h
  rcases h with rfl | rfl <;> exact isEdge_of_ascii (by decide) (by decide)

theorem isEdge_of_isWhitespace {c : ℕ} (h : isWhitespace c = true) : IsEdge W c := by
  refine ⟨W.space c h, ?_, ?_⟩
  all_goals
    rintro rfl
    cases h

theorem ValueAt.edges {name : String} {before value after : List ℕ}
    (h : ValueAt W name before value after) :
    (∀ c ∈ before.getLast?, IsEdge W c) ∧ ∀ c ∈ after.head?, IsEdge W c := by
  cases h with
  | @plain before shown gap _ _ hbefore hname hgap hafter =>
    refine ⟨?_, hafter⟩
    rw [← List.append_assoc, List.getLast?_append_of_ne_nil _ (List.cons_ne_nil _ _)]
    intro c hc
    rcases List.mem_cons.mp (List.mem_of_getLast? hc) with rfl | hmem
    · exact isEdge_of_ascii (by decide) (by decide)
    · exact isEdge_of_isWhitespace (hgap c hmem)
  | @quoted before shown gap _ after quote hquote hname hgap =>
    refine ⟨?_, fun c hc => Option.some.inj hc ▸ isEdge_of_isQuote hquote⟩
    have hlast : (before ++ (quote :: (shown ++ quote :: 58 :: (gap ++ [quote])))).getLast? =
        some quote := by
      have hsplit : before ++ (quote :: (shown ++ quote :: 58 :: (gap ++ [quote]))) =
          (before ++ (quote :: (shown ++ quote :: 58 :: gap))) ++ [quote] := by simp
      rw [hsplit, List.getLast?_concat]
    rw [hlast]
    exact fun c hc => Option.some.inj hc ▸ isEdge_of_isQuote hquote

/-- **A secret ends** where no word goes on, and no token that a pattern finds. -/
theorem SecretAt.edges {before secret after : List ℕ} (h : SecretAt W before secret after) :
    (∀ c ∈ before.getLast?, IsEdge W c) ∧ ∀ c ∈ after.head?, IsEdge W c := by
  cases h with
  | @credentials before scheme gap _ _ hvalue _ _ hne hgap _ =>
    refine ⟨?_, hvalue.edges.2⟩
    rw [← List.append_assoc, List.getLast?_append_of_ne_nil _ hne]
    exact fun c hc => isEdge_of_isWhitespace (hgap c (List.mem_of_getLast? hc))
  | @cookie before name _ after earlier later hvalue _ =>
    constructor
    · rw [← List.append_assoc, ← List.append_assoc, List.getLast?_concat]
      exact fun c hc => Option.some.inj hc ▸ isEdge_of_ascii (by decide) (by decide)
    · cases later with
      | nil => exact hvalue.edges.2
      | cons => exact fun c hc => Option.some.inj hc ▸ isEdge_of_ascii (by decide) (by decide)
  | token _ hvalue _ => exact hvalue.edges

end NextBallUp.Logging
