import NextBallUp.Lib.PassParts
import NextBallUp.Lib.Texts

/-!
# Redaction of log messages

The patterns of secrets that are taken out of every log message, and what each of them matches.

A message is a sequence of characters of any type with a code point. What is known of a character
besides its code point stays with it where it is kept, and so tells where the characters of a
redacted message come from.

## Main definitions

* `WordTable`: which characters are part of words, as the Unicode database has it
* `bearer`, `jwt`, `accessKey`, `header`: the passes of the four patterns
* `redactText`: the redaction of a text
* `LogValue`, `redactLogValue`: the values that are logged, and their redaction

## Main results

* `bearer_of_find`, `jwt_of_find`, `accessKey_of_find`, `header_find_iff`: **what the patterns
  match**
* `codes_redactText`: the redaction looks at the code points alone
-/

namespace NextBallUp.Logging

/-! ### Characters -/

def isUpper (c : ℕ) : Bool := 65 ≤ c && c ≤ 90

def isLower (c : ℕ) : Bool := 97 ≤ c && c ≤ 122

def isAlnum (c : ℕ) : Bool := isUpper c || isLower c || isDigit c

/-- What is known of the characters that `\w` matches. -/
structure WordTable where
  isWord : ℕ → Bool
  ascii : ∀ c < 128, isWord c = (isAlnum c || c = 95)
  space : ∀ c, isWhitespace c = true → isWord c = false

/-- The characters that are a letter of a pattern, once the case is ignored. Four of them are not
ASCII. -/
def ignoreCase (d c : ℕ) : Bool :=
  c = d || (isLower d && c + 32 = d) || (d = 105 && (c = 0x130 || c = 0x131)) ||
    (d = 115 && c = 0x17F) || (d = 107 && c = 0x212A)

/-- `[A-Za-z0-9._~+/=-]`, once the case is ignored. -/
def isTokenChar (c : ℕ) : Bool :=
  isAlnum c || c = 46 || c = 95 || c = 126 || c = 43 || c = 47 || c = 61 || c = 45 ||
    c = 0x130 || c = 0x131 || c = 0x17F || c = 0x212A

/-- `[A-Za-z0-9_-]` -/
def isJwtChar (c : ℕ) : Bool := isAlnum c || c = 95 || c = 45

/-- `[A-Z0-9]` -/
def isKeyChar (c : ℕ) : Bool := isUpper c || isDigit c

/-- `["']` -/
def isQuote (c : ℕ) : Bool := c = 34 || c = 39

/-- `[:=]` -/
def isSign (c : ℕ) : Bool := c = 58 || c = 61

/-- `[^"',\s}]` -/
def isValueChar (c : ℕ) : Bool := !(isQuote c || c = 44 || isWhitespace c || c = 125)

/-! ### Patterns -/

/-- `(?i)\bBearer\s+[A-Za-z0-9._~+/=-]+` -/
def bearerPattern : Regex :=
  .seq .boundary (.seq (.text ignoreCase "bearer".codePoints)
    (.seq (.oneOrMore isWhitespace) (.oneOrMore isTokenChar)))

/-- A text whose characters are given. -/
def exactly (s : String) : Regex := .text (fun d c => c = d) s.codePoints

/-- `\beyJ[A-Za-z0-9_-]+\.[A-Za-z0-9_-]+\.[A-Za-z0-9_-]+\b` -/
def jwtPattern : Regex :=
  .seq .boundary (.seq (exactly "eyJ") (.seq (.oneOrMore isJwtChar) (.seq (exactly ".")
    (.seq (.oneOrMore isJwtChar) (.seq (exactly ".") (.seq (.chars isJwtChar)
      (.seq (.many isJwtChar) .boundary)))))))

/-- `\b(?:AKIA|ASIA)[A-Z0-9]{16}\b` -/
def accessKeyPattern : Regex :=
  .seq .boundary (.seq (.alt (exactly "AKIA") (exactly "ASIA"))
    (.seq (.times (.chars isKeyChar) 16) .boundary))

/-- The headers that are named. -/
def headerNames : List String := ["authorization", "cookie", "x-csrf-token", "x-amz-security-token"]

/-- `["']?\s*[:=]\s*["']?` -/
def separatorPattern : Regex :=
  .seq (.optional (.chars isQuote)) (.seq (.many isWhitespace) (.seq (.chars isSign)
    (.seq (.many isWhitespace) (.optional (.chars isQuote)))))

/-- `(authorization|cookie|x-csrf-token|x-amz-security-token)` -/
def namePattern : Regex :=
  .alt (.text ignoreCase "authorization".codePoints) (.alt (.text ignoreCase "cookie".codePoints)
    (.alt (.text ignoreCase "x-csrf-token".codePoints)
      (.text ignoreCase "x-amz-security-token".codePoints)))

/-- `(?i)\b(..)\b(["']?\s*[:=]\s*["']?)[^"',\s}]+` -/
def headerPattern : Regex :=
  .seq .boundary (.seq (.group namePattern) (.seq .boundary (.seq (.group separatorPattern)
    (.oneOrMore isValueChar))))

/-! ### Letters -/

theorem codePoints_bearer : "bearer".codePoints = [98, 101, 97, 114, 101, 114] := rfl

theorem codePoints_eyJ : "eyJ".codePoints = [101, 121, 74] := rfl

theorem codePoints_dot : ".".codePoints = [46] := rfl

theorem codePoints_akia : "AKIA".codePoints = [65, 75, 73, 65] := rfl

theorem codePoints_asia : "ASIA".codePoints = [65, 83, 73, 65] := rfl

/-! ### Characters that are written -/

/-- Characters of which one can be written for each code point. -/
class Writable (χ : Type) extends HasCode χ where
  ofCode : ℕ → χ
  code_ofCode : ∀ c, code (ofCode c) = c

instance : Writable ℕ where
  ofCode := id
  code_ofCode _ := rfl

section Passes

variable {χ : Type} [Writable χ] (W : WordTable)

/-- `_REDACTED` -/
def redacted : List χ := "[REDACTED]".codePoints.map Writable.ofCode

def bearer : Pass χ := bearerPattern.pass W.isWord rfl fun _ => redacted

def jwt : Pass χ := jwtPattern.pass W.isWord rfl fun _ => redacted

def accessKey : Pass χ := accessKeyPattern.pass W.isWord rfl fun _ => redacted

/-- The groups are the name of the header and its separator. -/
def header : Pass χ := headerPattern.pass W.isWord rfl fun m => m.groups.flatten ++ redacted

/-- `_SECRET_PATTERNS` -/
def secretPatterns : List (Pass χ) := [bearer W, jwt W, accessKey W, header W]

/-- `redact_log_value`, for a string. -/
def redactText (value : List χ) : List χ :=
  (secretPatterns W).foldl (fun redacted pattern => pattern.sub none redacted) value

end Passes

/-! ### What the patterns match -/

section Matches

variable {χ : Type} [HasCode χ] {W : WordTable}

/-- The scheme with its token. -/
def IsBearerToken (l : List χ) : Prop :=
  ∃ scheme gap token, l = scheme ++ (gap ++ token) ∧
    Regex.Spells ignoreCase "bearer".codePoints scheme ∧
    (gap ≠ [] ∧ ∀ c ∈ gap, Regex.isIn isWhitespace c = true) ∧
    (token ≠ [] ∧ ∀ c ∈ token, Regex.isIn isTokenChar c = true)

def IsJwt (l : List χ) : Prop :=
  ∃ start header payload signature dot dot', l = start ++ (header ++ (dot ++ (payload ++ (dot' ++
      signature)))) ∧
    Regex.Spells (fun d c => c = d) "eyJ".codePoints start ∧
    Regex.Spells (fun d c => c = d) ".".codePoints dot ∧
    Regex.Spells (fun d c => c = d) ".".codePoints dot' ∧
    (header ≠ [] ∧ ∀ c ∈ header, Regex.isIn isJwtChar c = true) ∧
    (payload ≠ [] ∧ ∀ c ∈ payload, Regex.isIn isJwtChar c = true) ∧
    (signature ≠ [] ∧ ∀ c ∈ signature, Regex.isIn isJwtChar c = true)

def IsAccessKey (l : List χ) : Prop :=
  ∃ start rest, l = start ++ rest ∧ (Regex.Spells (fun d c => c = d) "AKIA".codePoints start ∨
    Regex.Spells (fun d c => c = d) "ASIA".codePoints start) ∧
    rest.length = 16 ∧ ∀ c ∈ rest, Regex.isIn isKeyChar c = true

/-- The name of a header that is named. -/
def IsName (l : List χ) : Prop :=
  ∃ name ∈ headerNames, Regex.Spells ignoreCase name.codePoints l

/-- What stands between the name of a header and its value. -/
def IsSeparator (l : List χ) : Prop :=
  ∃ quote gap sign gap' quote', l = quote ++ (gap ++ (sign :: (gap' ++ quote'))) ∧
    (quote.length ≤ 1 ∧ ∀ c ∈ quote, Regex.isIn isQuote c = true) ∧
    (∀ c ∈ gap, Regex.isIn isWhitespace c = true) ∧ Regex.isIn isSign sign = true ∧
    (∀ c ∈ gap', Regex.isIn isWhitespace c = true) ∧
    (quote'.length ≤ 1 ∧ ∀ c ∈ quote', Regex.isIn isQuote c = true)

variable {prev : Option χ} {text l rest : List χ} {g : List (List χ)} {m : Match χ}

theorem isWord_of_isJwtChar {c : ℕ} (h : isJwtChar c = true) (hc : c ≠ 45) : W.isWord c = true := by
  simp only [isJwtChar, isAlnum, isUpper, isLower, isDigit, Bool.or_eq_true, Bool.and_eq_true,
    decide_eq_true_eq] at h
  rw [W.ascii c (by omega)]
  simp only [isAlnum, isUpper, isLower, isDigit, Bool.or_eq_true, Bool.and_eq_true,
    decide_eq_true_eq]
  omega

/-- The letters for which ignoring the case adds capitals alone. -/
def isPlainLetter (d : ℕ) : Bool := isLower d && d != 105 && d != 115 && d != 107

theorem eq_or_of_ignoreCase {d c : ℕ} (hd : isPlainLetter d = true) (h : ignoreCase d c = true) :
    c = d ∨ c + 32 = d := by
  simp only [isPlainLetter, ignoreCase, Bool.and_eq_true, Bool.or_eq_true, decide_eq_true_eq,
    bne_iff_ne] at hd h
  omega

theorem isWord_of_ignoreCase {d c : ℕ} (hd : isPlainLetter d = true)
    (h : ignoreCase d c = true) : W.isWord c = true := by
  have hc := eq_or_of_ignoreCase hd h
  simp only [isPlainLetter, isLower, Bool.and_eq_true, decide_eq_true_eq] at hd
  refine isWord_of_isJwtChar ?_ (by omega)
  simp only [isJwtChar, isAlnum, isUpper, isLower, isDigit, Bool.or_eq_true, Bool.and_eq_true,
    decide_eq_true_eq]
  omega

theorem isWordAt_append_of_ignoreCase {d : ℕ} {w : List ℕ} (hd : isPlainLetter d = true)
    (h : Regex.Spells ignoreCase (d :: w) l) :
    Regex.isWordAt W.isWord (l ++ rest).head? = true := by
  obtain ⟨c, t, hc, -, rfl⟩ := List.forall₂_cons_left_iff.mp h
  exact isWord_of_ignoreCase hd hc

theorem bearer_matches_iff : bearerPattern.Matches W.isWord prev l rest g ↔
    Regex.isWordAt W.isWord prev = false ∧ IsBearerToken l ∧ g = [] := by
  have hword : ∀ {b t : List χ}, Regex.Spells ignoreCase "bearer".codePoints b →
      Regex.isWordAt W.isWord (b ++ t).head? = true := fun h =>
    isWordAt_append_of_ignoreCase (by decide) (codePoints_bearer ▸ h)
  rw [bearerPattern, Regex.matches_boundary_seq_iff, Regex.matches_seq_iff Regex.matches_text_iff]
  simp only [Regex.matches_seq_iff Regex.matches_oneOrMore_iff, Regex.matches_oneOrMore_iff]
  constructor
  · rintro ⟨hprev, b, _, hb, ⟨w, t, hw, ⟨ht, rfl⟩, rfl⟩, rfl⟩
    rw [List.append_assoc, hword hb] at hprev
    exact ⟨by simpa using hprev, ⟨b, w, t, rfl, hb, hw, ht⟩, rfl⟩
  · rintro ⟨hprev, ⟨b, w, t, rfl, hb, hw, ht⟩, rfl⟩
    refine ⟨?_, b, _, hb, ⟨w, t, hw, ⟨ht, rfl⟩, rfl⟩, rfl⟩
    rw [List.append_assoc, hword hb, hprev]
    exact Bool.false_ne_true

/-- Characters that are given. -/
theorem isWordAt_append_of_exactly {d : ℕ} {w : List ℕ} (hd : W.isWord d = true)
    (h : Regex.Spells (fun d c => c = d) (d :: w) l) :
    Regex.isWordAt W.isWord (l ++ rest).head? = true := by
  obtain ⟨c, t, hc, -, rfl⟩ := List.forall₂_cons_left_iff.mp h
  have hcode : HasCode.code c = d := decide_eq_true_iff.mp hc
  exact show W.isWord (HasCode.code c) = true by rw [hcode, hd]

theorem jwt_matches_iff : jwtPattern.Matches W.isWord prev l rest g ↔
    Regex.isWordAt W.isWord prev = false ∧ IsJwt l ∧
      Regex.isWordAt W.isWord l.getLast? ≠ Regex.isWordAt W.isWord rest.head? ∧ g = [] := by
  have hword : ∀ {b t : List χ}, Regex.Spells (fun d c => c = d) "eyJ".codePoints b →
      Regex.isWordAt W.isWord (b ++ t).head? = true := fun h =>
    isWordAt_append_of_exactly (W.ascii 101 (by decide)) (codePoints_eyJ ▸ h)
  rw [jwtPattern, Regex.matches_boundary_seq_iff]
  simp only [exactly, Regex.matches_seq_iff Regex.matches_text_iff,
    Regex.matches_seq_iff Regex.matches_oneOrMore_iff, Regex.matches_many_boundary_iff]
  constructor
  · rintro ⟨hprev, b, _, hb, ⟨h, _, hh, ⟨d, _, hd, ⟨p, _, hp, ⟨d', t, hd', ⟨ht, hend, rfl⟩, rfl⟩,
      rfl⟩, rfl⟩, rfl⟩, rfl⟩
    rw [List.append_assoc, hword hb] at hprev
    refine ⟨by simpa using hprev, ⟨b, h, p, t, d, d', rfl, hb, hd, hd', hh, hp, ht⟩, ?_, rfl⟩
    simp only [← List.append_assoc]
    rwa [List.getLast?_append_of_ne_nil _ ht.1]
  · rintro ⟨hprev, ⟨b, h, p, t, d, d', rfl, hb, hd, hd', hh, hp, ht⟩, hend, rfl⟩
    refine ⟨?_, b, _, hb, ⟨h, _, hh, ⟨d, _, hd, ⟨p, _, hp, ⟨d', t, hd', ⟨ht, ?_, rfl⟩, rfl⟩,
      rfl⟩, rfl⟩, rfl⟩, rfl⟩
    · rw [List.append_assoc, hword hb, hprev]
      exact Bool.false_ne_true
    · simp only [← List.append_assoc] at hend
      rwa [List.getLast?_append_of_ne_nil _ ht.1] at hend

theorem isWordAt_getLast?_key (h : l.length = 16 ∧ ∀ c ∈ l, Regex.isIn isKeyChar c = true)
    (prev : Option χ) : Regex.isWordAt W.isWord (l.getLast?.or prev) = true := by
  have hne : l ≠ [] := by
    rintro rfl
    cases h.1
  rw [List.getLast?_eq_getLast_of_ne_nil hne]
  have hc := h.2 _ (List.getLast_mem hne)
  refine isWord_of_isJwtChar (c := HasCode.code (l.getLast hne)) ?_ ?_
  all_goals
    simp only [Regex.isIn, isKeyChar, isUpper, isDigit, isJwtChar, isAlnum, isLower,
      Bool.or_eq_true, Bool.and_eq_true, decide_eq_true_eq] at hc ⊢
    omega

theorem accessKey_matches_iff : accessKeyPattern.Matches W.isWord prev l rest g ↔
    Regex.isWordAt W.isWord prev = false ∧ IsAccessKey l ∧
      Regex.isWordAt W.isWord rest.head? = false ∧ g = [] := by
  have hstart : ∀ {prev : Option χ} {l rest g},
      (Regex.alt (exactly "AKIA") (exactly "ASIA")).Matches W.isWord prev l rest g ↔
        (Regex.Spells (fun d c => c = d) "AKIA".codePoints l ∨
          Regex.Spells (fun d c => c = d) "ASIA".codePoints l) ∧ g = [] := by
    intro prev l rest g
    rw [Regex.Matches, exactly, exactly, Regex.matches_text_iff, Regex.matches_text_iff,
      or_and_right]
  have hword : ∀ {b t : List χ}, (Regex.Spells (fun d c => c = d) "AKIA".codePoints b ∨
      Regex.Spells (fun d c => c = d) "ASIA".codePoints b) →
        Regex.isWordAt W.isWord (b ++ t).head? = true := by
    have hA : W.isWord 65 = true := W.ascii 65 (by decide)
    rw [codePoints_akia, codePoints_asia]
    rintro b t (h | h)
    · exact isWordAt_append_of_exactly hA h
    · exact isWordAt_append_of_exactly hA h
  rw [accessKeyPattern, Regex.matches_boundary_seq_iff, Regex.matches_seq_iff hstart]
  simp only [Regex.matches_seq_iff Regex.matches_times_iff]
  simp only [Regex.Matches]
  constructor
  · rintro ⟨hprev, b, _, hb, ⟨t, _, ht, ⟨⟨hend, rfl⟩, rfl⟩, rfl⟩, rfl⟩
    rw [List.append_assoc, hword hb] at hprev
    rw [isWordAt_getLast?_key ht _] at hend
    refine ⟨by simpa using hprev, ⟨b, t, by rw [List.append_nil], hb, ht⟩, by simpa using hend, rfl⟩
  · rintro ⟨hprev, ⟨b, t, rfl, hb, ht⟩, hend, rfl⟩
    refine ⟨?_, b, _, hb, ⟨t, [], ht, ⟨⟨?_, rfl⟩, rfl⟩, (List.append_nil t).symm⟩, rfl⟩
    · rw [List.append_assoc, hword hb, hprev]
      exact Bool.false_ne_true
    · rw [isWordAt_getLast?_key ht _, hend]
      exact Bool.false_ne_true.symm

theorem separator_matches_iff : separatorPattern.Matches W.isWord prev l rest g ↔
    IsSeparator l ∧ g = [] := by
  have hmany : ∀ {prev : Option χ} {l rest g},
      (Regex.many isWhitespace).Matches W.isWord prev l rest g ↔
        (∀ c ∈ l, Regex.isIn isWhitespace c = true) ∧ g = [] := Iff.rfl
  have hsign : ∀ {prev : Option χ} {l rest g}, (Regex.chars isSign).Matches W.isWord prev l rest
      g ↔ (∃ c, l = [c] ∧ Regex.isIn isSign c = true) ∧ g = [] := Iff.rfl
  rw [separatorPattern, Regex.matches_seq_iff Regex.matches_optional_chars_iff]
  simp only [Regex.matches_seq_iff hmany, Regex.matches_seq_iff hsign,
    Regex.matches_optional_chars_iff]
  constructor
  · rintro ⟨q, _, hq, ⟨w, _, hw, ⟨_, _, ⟨c, rfl, hc⟩, ⟨w', q', hw', ⟨hq', rfl⟩, rfl⟩, rfl⟩, rfl⟩,
      rfl⟩
    exact ⟨⟨q, w, c, w', q', rfl, hq, hw, hc, hw', hq'⟩, rfl⟩
  · rintro ⟨⟨q, w, c, w', q', rfl, hq, hw, hc, hw', hq'⟩, rfl⟩
    exact ⟨q, _, hq, ⟨w, _, hw, ⟨[c], _, ⟨c, rfl, hc⟩, ⟨w', q', hw', ⟨hq', rfl⟩, rfl⟩, rfl⟩, rfl⟩,
      rfl⟩

theorem name_matches_iff : namePattern.Matches W.isWord prev l rest g ↔ IsName l ∧ g = [] := by
  simp only [namePattern, Regex.Matches, Regex.matches_text_iff, ← or_and_right]
  simp [IsName, headerNames]

/-- What is the first and the last letter of each name. -/
theorem exists_name_letters {name : String} (hname : name ∈ headerNames) :
    ∃ d w d' w', name.codePoints = d :: w ∧ name.codePoints = w' ++ [d'] ∧
      isPlainLetter d = true ∧ isPlainLetter d' = true := by
  have hall : ∀ name ∈ headerNames, ∃ d ∈ name.codePoints.head?, ∃ d' ∈ name.codePoints.getLast?,
      isPlainLetter d = true ∧ isPlainLetter d' = true := by decide
  obtain ⟨d, hd, d', hd', hplain, hplain'⟩ := hall name hname
  obtain ⟨w, hw⟩ := List.head?_eq_some_iff.mp hd
  obtain ⟨w', hw'⟩ := List.getLast?_eq_some_iff.mp hd'
  exact ⟨d, w, d', w', hw, hw', hplain, hplain'⟩

theorem isWordAt_name_append (h : IsName l) :
    Regex.isWordAt W.isWord (l ++ rest).head? = true := by
  obtain ⟨name, hname, hl⟩ := h
  obtain ⟨d, w, -, -, hd, -, hplain, -⟩ := exists_name_letters hname
  exact isWordAt_append_of_ignoreCase hplain (hd ▸ hl)

theorem isWordAt_getLast?_name (h : IsName l) (prev : Option χ) :
    Regex.isWordAt W.isWord (l.getLast?.or prev) = true := by
  obtain ⟨name, hname, hl⟩ := h
  obtain ⟨-, -, d, w, -, hd, -, hplain⟩ := exists_name_letters hname
  have hreverse := List.forall₂_reverse_iff.mpr hl
  rw [hd, List.reverse_append] at hreverse
  obtain ⟨c, t, hc, -, hl'⟩ := List.forall₂_cons_left_iff.mp hreverse
  rw [List.getLast?_eq_head?_reverse, hl']
  exact isWord_of_ignoreCase hplain hc

theorem IsSeparator.ne_nil (h : IsSeparator l) : l ≠ [] := by
  obtain ⟨q, w, c, w', q', rfl, -⟩ := h
  exact List.append_ne_nil_of_right_ne_nil _
    (List.append_ne_nil_of_right_ne_nil _ (List.cons_ne_nil _ _))

/-- A separator has nothing of a word. -/
theorem IsSeparator.not_isWord (h : IsSeparator l) :
    ∀ c ∈ l, W.isWord (HasCode.code c) = false := by
  obtain ⟨q, w, c, w', q', rfl, hq, hw, hc, hw', hq'⟩ := h
  have hmark : ∀ c, isQuote c = true ∨ isSign c = true → W.isWord c = false := by
    intro c hc
    simp only [isQuote, isSign, Bool.or_eq_true, decide_eq_true_eq] at hc
    rw [W.ascii c (by omega)]
    simp only [isAlnum, isUpper, isLower, isDigit, Bool.or_eq_false_iff, Bool.and_eq_false_iff,
      decide_eq_false_iff_not]
    omega
  intro d hd
  simp only [List.mem_append, List.mem_cons] at hd
  rcases hd with hd | hd | rfl | hd | hd
  · exact hmark _ (.inl (hq.2 d hd))
  · exact W.space _ (hw d hd)
  · exact hmark _ (.inr hc)
  · exact W.space _ (hw' d hd)
  · exact hmark _ (.inl (hq'.2 d hd))

theorem isWordAt_separator_append (h : IsSeparator l) :
    Regex.isWordAt W.isWord (l ++ rest).head? = false := by
  obtain ⟨c, t, rfl⟩ := List.exists_cons_of_ne_nil h.ne_nil
  exact h.not_isWord c List.mem_cons_self

theorem isWordAt_getLast?_separator (h : IsSeparator l) (prev : Option χ) :
    Regex.isWordAt W.isWord (l.getLast?.or prev) = false := by
  rw [List.getLast?_eq_getLast_of_ne_nil h.ne_nil]
  exact h.not_isWord _ (List.getLast_mem h.ne_nil)

/-- The name and the separator begin and end where no word goes on. -/
theorem header_matches_iff : headerPattern.Matches W.isWord prev l rest g ↔
    Regex.isWordAt W.isWord prev = false ∧ ∃ name sep value, l = name ++ (sep ++ value) ∧
      IsName name ∧ IsSeparator sep ∧ (value ≠ [] ∧ ∀ c ∈ value, Regex.isIn isValueChar c = true) ∧
      g = [name, sep] := by
  rw [headerPattern, Regex.matches_boundary_seq_iff, Regex.matches_group_seq_iff name_matches_iff]
  simp only [Regex.matches_boundary_seq_iff, Regex.matches_group_seq_iff separator_matches_iff,
    Regex.matches_oneOrMore_iff]
  constructor
  · rintro ⟨hprev, n, _, _, hn, ⟨-, s, v, _, hs, ⟨hv, rfl⟩, rfl, rfl⟩, rfl, rfl⟩
    rw [List.append_assoc, isWordAt_name_append hn] at hprev
    exact ⟨by simpa using hprev, n, s, v, rfl, hn, hs, hv, rfl⟩
  · rintro ⟨hprev, n, s, v, rfl, hn, hs, hv, rfl⟩
    refine ⟨?_, n, _, _, hn, ⟨?_, s, v, _, hs, ⟨hv, rfl⟩, rfl, rfl⟩, rfl, rfl⟩
    · rw [List.append_assoc, isWordAt_name_append hn, hprev]
      exact Bool.false_ne_true
    · rw [List.append_assoc, isWordAt_separator_append hs, isWordAt_getLast?_name hn]
      exact Bool.false_ne_true.symm

/-! ### The first character -/

theorem IsBearerToken.start (h : IsBearerToken l) :
    ∀ c ∈ l.head?, HasCode.code c = 98 ∨ HasCode.code c = 66 := by
  obtain ⟨b, w, t, rfl, hb, -, -⟩ := h
  rw [codePoints_bearer] at hb
  obtain ⟨c, t, hc, -, rfl⟩ := List.forall₂_cons_left_iff.mp hb
  intro d hd
  obtain rfl : c = d := Option.some.inj hd
  exact (eq_or_of_ignoreCase (by decide) hc).imp_right fun h => by omega

theorem IsBearerToken.head (h : IsBearerToken l) : ∀ c ∈ l.head?, Regex.isIn isAlnum c = true := by
  intro c hc
  rcases h.start c hc with hcode | hcode <;> rw [Regex.isIn, hcode] <;> rfl

theorem IsJwt.start (h : IsJwt l) : ∃ c d e t, l = c :: d :: e :: t ∧
    HasCode.code c = 101 ∧ HasCode.code d = 121 ∧ HasCode.code e = 74 := by
  obtain ⟨b, -, -, -, -, -, rfl, hb, -⟩ := h
  rw [codePoints_eyJ] at hb
  obtain ⟨c, _, hc, hb₁, rfl⟩ := List.forall₂_cons_left_iff.mp hb
  obtain ⟨d, _, hd, hb₂, rfl⟩ := List.forall₂_cons_left_iff.mp hb₁
  obtain ⟨e, _, he, -, rfl⟩ := List.forall₂_cons_left_iff.mp hb₂
  exact ⟨c, d, e, _, rfl, decide_eq_true_iff.mp hc, decide_eq_true_iff.mp hd,
    decide_eq_true_iff.mp he⟩

theorem IsJwt.ne_nil (h : IsJwt l) : l ≠ [] := by
  obtain ⟨c, d, e, t, rfl, -⟩ := h.start
  exact List.cons_ne_nil _ _

theorem IsJwt.head (h : IsJwt l) : ∀ c ∈ l.head?, HasCode.code c = 101 := by
  obtain ⟨c, d, e, t, rfl, hc, -⟩ := h.start
  exact fun x hx => Option.some.inj hx ▸ hc

theorem IsAccessKey.start (h : IsAccessKey l) : ∃ c d e t, l = c :: d :: e :: t ∧
    HasCode.code c = 65 ∧ HasCode.code e = 73 := by
  obtain ⟨b, t, rfl, hb, -⟩ := h
  rw [codePoints_akia, codePoints_asia] at hb
  have hstart : ∀ {n k : ℕ}, Regex.Spells (fun d c => c = d) [65, n, 73, k] b →
      ∃ c d e u, b = c :: d :: e :: u ∧ HasCode.code c = 65 ∧ HasCode.code e = 73 := by
    intro n k hb
    obtain ⟨c, _, hc, hb₁, rfl⟩ := List.forall₂_cons_left_iff.mp hb
    obtain ⟨d, _, -, hb₂, rfl⟩ := List.forall₂_cons_left_iff.mp hb₁
    obtain ⟨e, u, he, -, rfl⟩ := List.forall₂_cons_left_iff.mp hb₂
    exact ⟨c, d, e, u, rfl, decide_eq_true_iff.mp hc, decide_eq_true_iff.mp he⟩
  obtain ⟨c, d, e, u, rfl, hc, he⟩ := hb.elim hstart hstart
  exact ⟨c, d, e, u ++ t, rfl, hc, he⟩

theorem IsAccessKey.ne_nil (h : IsAccessKey l) : l ≠ [] := by
  obtain ⟨c, d, e, t, rfl, -⟩ := h.start
  exact List.cons_ne_nil _ _

theorem IsAccessKey.head (h : IsAccessKey l) : ∀ c ∈ l.head?, HasCode.code c = 65 := by
  obtain ⟨c, d, e, t, rfl, hc, -⟩ := h.start
  exact fun x hx => Option.some.inj hx ▸ hc

theorem IsAccessKey.chars (h : IsAccessKey l) : ∀ c ∈ l, Regex.isIn isKeyChar c = true := by
  obtain ⟨b, t, rfl, hb, -, ht⟩ := h
  rw [codePoints_akia, codePoints_asia] at hb
  have hstart : ∀ {w : List ℕ}, (∀ n ∈ w, isKeyChar n = true) →
      Regex.Spells (fun d c => c = d) w b → ∀ c ∈ b, Regex.isIn isKeyChar c = true := by
    intro w hw hb c hc
    obtain ⟨n, hn, hcode⟩ := hb.mem hc
    rw [Regex.isIn, show HasCode.code c = n from decide_eq_true_iff.mp hcode]
    exact hw n hn
  intro c hc
  exact (List.mem_append.mp hc).elim (hb.elim (hstart (by decide)) (hstart (by decide)) c) (ht c)

theorem IsAccessKey.length (h : IsAccessKey l) : l.length = 20 := by
  obtain ⟨b, t, rfl, hb, ht, -⟩ := h
  rw [codePoints_akia, codePoints_asia] at hb
  rw [List.length_append, ht, hb.elim (fun hb => hb.length) fun hb => hb.length]
  rfl

theorem IsAccessKey.last (h : IsAccessKey l) : Regex.isWordAt W.isWord l.getLast? = true := by
  obtain ⟨b, t, rfl, -, ht⟩ := h
  rw [List.getLast?_append]
  exact isWordAt_getLast?_key ht _

theorem IsName.head (h : IsName l) : ∀ c ∈ l.head?, Regex.isIn isAlnum c = true := by
  obtain ⟨name, hname, hl⟩ := h
  obtain ⟨d, w, -, -, hd, -, hplain, -⟩ := exists_name_letters hname
  rw [hd] at hl
  obtain ⟨c, t, hc, -, rfl⟩ := List.forall₂_cons_left_iff.mp hl
  intro e he
  obtain rfl : c = e := Option.some.inj he
  have hcode := eq_or_of_ignoreCase hplain hc
  simp only [isPlainLetter, isLower, Bool.and_eq_true, decide_eq_true_eq] at hplain
  simp only [Regex.isIn, isAlnum, isUpper, isLower, isDigit, Bool.or_eq_true, Bool.and_eq_true,
    decide_eq_true_eq]
  omega

theorem IsName.exists_head (h : IsName l) (rest : List χ) :
    ∃ c ∈ (l ++ rest).head?, Regex.isIn isAlnum c = true := by
  obtain ⟨name, hname, hl⟩ := id h
  obtain ⟨d, w, -, -, hd, -⟩ := exists_name_letters hname
  rw [hd] at hl
  obtain ⟨c, t, -, -, rfl⟩ := List.forall₂_cons_left_iff.mp hl
  exact ⟨c, rfl, h.head c rfl⟩

/-! ### What is found -/

/-- Two texts that are spelled at the same place begin alike. -/
theorem one_begins_with_other {w w' : List ℕ} {l l' z z' : List χ}
    (hsame : ∀ d ∈ w, ∀ d' ∈ w', ∀ c, ignoreCase d c = true → ignoreCase d' c = true → d = d')
    (h : Regex.Spells ignoreCase w l) (h' : Regex.Spells ignoreCase w' l')
    (hz : l ++ z = l' ++ z') : w <+: w' ∨ w' <+: w := by
  induction w generalizing w' l l' with
  | nil => exact .inl List.nil_prefix
  | cons d w ih =>
    cases w' with
    | nil => exact .inr List.nil_prefix
    | cons d' w' =>
      obtain ⟨c, t, hc, ht, rfl⟩ := List.forall₂_cons_left_iff.mp h
      obtain ⟨c', t', hc', ht', rfl⟩ := List.forall₂_cons_left_iff.mp h'
      obtain ⟨rfl, htail⟩ := List.cons.inj hz
      have hd := hsame d List.mem_cons_self d' List.mem_cons_self _ hc hc'
      subst hd
      simp only [List.cons_prefix_cons, true_and]
      exact ih (fun d hd d' hd' => hsame d (List.mem_cons_of_mem _ hd) d'
        (List.mem_cons_of_mem _ hd')) ht ht' htail

theorem name_unique {n n' z z' : List χ} (hn : IsName n) (hn' : IsName n')
    (h : n ++ z = n' ++ z') : n = n' ∧ z = z' := by
  obtain ⟨name, hname, hl⟩ := hn
  obtain ⟨name', hname', hl'⟩ := hn'
  have hletters : ∀ name ∈ headerNames, ∀ d ∈ name.codePoints, isLower d = true ∨ d = 45 := by
    decide
  have happart : ∀ name ∈ headerNames, ∀ name' ∈ headerNames,
      name.codePoints <+: name'.codePoints → name = name' := by decide
  have heq : name = name' := by
    refine (one_begins_with_other ?_ hl hl' h).elim (happart _ hname _ hname')
      fun h => (happart _ hname' _ hname h).symm
    intro d hd d' hd' c hc hc'
    have hd := hletters _ hname d hd
    have hd' := hletters _ hname' d' hd'
    simp only [ignoreCase, isLower, Bool.or_eq_true, Bool.and_eq_true, decide_eq_true_eq]
      at hd hd' hc hc'
    omega
  subst heq
  exact List.append_inj h (hl.length.trans hl'.length.symm)

theorem not_isIn_of_isIn {p q : ℕ → Bool} (hpq : ∀ c, p c = true → q c = false) {c : χ}
    (hc : Regex.isIn p c = true) : ¬ Regex.isIn q c = true :=
  Bool.eq_false_iff.mp (hpq _ hc)

theorem not_isQuote_of_isWhitespace (c : ℕ) (hc : isWhitespace c = true) : isQuote c = false := by
  simp only [isWhitespace, Bool.or_eq_true, Bool.and_eq_true, decide_eq_true_eq] at hc
  simp only [isQuote, Bool.or_eq_false_iff, decide_eq_false_iff_not]
  omega

theorem not_isQuote_of_isSign (c : ℕ) (hc : isSign c = true) : isQuote c = false := by
  simp only [isSign, Bool.or_eq_true, decide_eq_true_eq] at hc
  simp only [isQuote, Bool.or_eq_false_iff, decide_eq_false_iff_not]
  omega

theorem not_isWhitespace_of_isSign (c : ℕ) (hc : isSign c = true) : isWhitespace c = false := by
  simp only [isSign, Bool.or_eq_true, decide_eq_true_eq] at hc
  rcases hc with rfl | rfl <;> rfl

theorem not_isWhitespace_of_isQuote (c : ℕ) (hc : isQuote c = true) : isWhitespace c = false := by
  simp only [isQuote, Bool.or_eq_true, decide_eq_true_eq] at hc
  rcases hc with rfl | rfl <;> rfl

theorem not_of_isValueChar (c : ℕ) (hc : isValueChar c = true) :
    isQuote c = false ∧ isWhitespace c = false := by
  simp only [isValueChar, Bool.not_eq_true', Bool.or_eq_false_iff] at hc
  exact ⟨hc.1.1.1, hc.1.2⟩

omit [HasCode χ] in
theorem head_append {A : χ → Prop} {w z : List χ} (hw : ∀ c ∈ w, A c) (hz : ∀ c ∈ z.head?, A c) :
    ∀ c ∈ (w ++ z).head?, A c := by
  cases w with
  | nil => exact hz
  | cons d w => exact fun c hc => Option.some.inj hc ▸ hw d List.mem_cons_self

/-- A separator ends before the first character of a value. -/
theorem separator_unique {s s' v v' : List χ} (hs : IsSeparator s) (hs' : IsSeparator s')
    (hv : ∀ c ∈ v.head?, Regex.isIn isValueChar c = true)
    (hv' : ∀ c ∈ v'.head?, Regex.isIn isValueChar c = true) (h : s ++ v = s' ++ v') :
    s = s' ∧ v = v' := by
  obtain ⟨q, w, c, w', q', rfl, hq, hw, hc, hw', hq'⟩ := hs
  obtain ⟨r, u, d, u', r', rfl, hr, hu, hd, hu', hr'⟩ := hs'
  have hquote : ∀ {w : List χ} {c : χ} {t : List χ}, (∀ c ∈ w, Regex.isIn isWhitespace c = true) →
      Regex.isIn isSign c = true → ∀ e ∈ (w ++ (c :: t)).head?, ¬ Regex.isIn isQuote e = true :=
    fun hw hc => head_append (fun e he => not_isIn_of_isIn not_isQuote_of_isWhitespace (hw e he))
      fun e he => Option.some.inj he ▸ not_isIn_of_isIn not_isQuote_of_isSign hc
  have hsign : ∀ {c : χ} {t : List χ}, Regex.isIn isSign c = true →
      ∀ e ∈ (c :: t).head?, ¬ Regex.isIn isWhitespace e = true :=
    fun hc e he => Option.some.inj he ▸ not_isIn_of_isIn not_isWhitespace_of_isSign hc
  have hvalue : ∀ {q v : List χ}, (∀ c ∈ q, Regex.isIn isQuote c = true) →
      (∀ c ∈ v.head?, Regex.isIn isValueChar c = true) →
        ∀ e ∈ (q ++ v).head?, ¬ Regex.isIn isWhitespace e = true :=
    fun hq hv => head_append (fun e he => not_isIn_of_isIn not_isWhitespace_of_isQuote (hq e he))
      fun e he => not_isIn_of_isIn (fun c hc => (not_of_isValueChar c hc).2) (hv e he)
  have hbehind : ∀ {v : List χ}, (∀ c ∈ v.head?, Regex.isIn isValueChar c = true) →
      ∀ e ∈ v.head?, ¬ Regex.isIn isQuote e = true :=
    fun hv e he => not_isIn_of_isIn (fun c hc => (not_of_isValueChar c hc).1) (hv e he)
  simp only [List.append_assoc, List.cons_append] at h
  -- the separators are read from the left, one kind of characters after the other
  obtain ⟨rfl, h₁⟩ := Regex.span_unique hq.2 hr.2 (hquote hw hc) (hquote hu hd) h
  obtain ⟨rfl, h₂⟩ := Regex.span_unique hw hu (hsign hc) (hsign hd) h₁
  obtain ⟨rfl, h₃⟩ := List.cons.inj h₂
  obtain ⟨rfl, h₄⟩ := Regex.span_unique hw' hu' (hvalue hq'.2 hv) (hvalue hr'.2 hv') h₃
  obtain ⟨rfl, h₅⟩ := Regex.span_unique hq'.2 hr'.2 (hbehind hv) (hbehind hv') h₄
  exact ⟨rfl, h₅⟩

end Matches

section Found

variable {χ : Type} [Writable χ] {W : WordTable} {prev : Option χ} {text : List χ} {m : Match χ}

theorem bearer_of_find (h : (bearer W).find prev text = some m) :
    Regex.isWordAt W.isWord prev = false ∧ IsBearerToken m.taken ∧
      ∀ c ∈ m.rest.head?, ¬ Regex.isIn isTokenChar c = true := by
  obtain ⟨hprev, htaken, -⟩ := bearer_matches_iff.mp (Regex.matches_of_first h).2
  exact ⟨hprev, htaken, Regex.not_isIn_of_first_many
    (.seq _ (.seq _ (.seq _ (.seq _ .refl)))) h⟩

theorem jwt_of_find (h : (jwt W).find prev text = some m) :
    Regex.isWordAt W.isWord prev = false ∧ IsJwt m.taken ∧
      Regex.isWordAt W.isWord m.taken.getLast? ≠ Regex.isWordAt W.isWord m.rest.head? := by
  obtain ⟨hprev, htaken, hend, -⟩ := jwt_matches_iff.mp (Regex.matches_of_first h).2
  exact ⟨hprev, htaken, hend⟩

/-- A token goes on as far as a word ends. -/
theorem isWordAt_of_jwt_find (h : (jwt W).find prev text = some m) {v z : List χ} (hv : v ≠ [])
    (hchars : ∀ c ∈ v, Regex.isIn isJwtChar c = true) (hrest : m.rest = v ++ z) :
    Regex.isWordAt W.isWord v.getLast? = Regex.isWordAt W.isWord z.head? :=
  Regex.eq_of_first_many_boundary
    (.seq _ (.seq _ (.seq _ (.seq _ (.seq _ (.seq _ (.seq _ .refl))))))) h hv hchars hrest

theorem accessKey_of_find (h : (accessKey W).find prev text = some m) :
    Regex.isWordAt W.isWord prev = false ∧ IsAccessKey m.taken ∧
      Regex.isWordAt W.isWord m.rest.head? = false := by
  obtain ⟨hprev, htaken, hend, -⟩ := accessKey_matches_iff.mp (Regex.matches_of_first h).2
  exact ⟨hprev, htaken, hend⟩

/-- **What the pattern of the headers finds.** -/
theorem header_find_iff : (header W).find prev text = some m ↔
    Regex.isWordAt W.isWord prev = false ∧ ∃ name sep value,
      text = name ++ (sep ++ (value ++ m.rest)) ∧ m.taken = name ++ (sep ++ value) ∧
      m.groups = [name, sep] ∧ IsName name ∧ IsSeparator sep ∧
      (value ≠ [] ∧ ∀ c ∈ value, Regex.isIn isValueChar c = true) ∧
      ∀ c ∈ m.rest.head?, ¬ Regex.isIn isValueChar c = true := by
  have hfound : ∀ {m : Match χ}, (header W).find prev text = some m →
      Regex.isWordAt W.isWord prev = false ∧ ∃ name sep value,
        text = name ++ (sep ++ (value ++ m.rest)) ∧ m.taken = name ++ (sep ++ value) ∧
        m.groups = [name, sep] ∧ IsName name ∧ IsSeparator sep ∧
        (value ≠ [] ∧ ∀ c ∈ value, Regex.isIn isValueChar c = true) ∧
        ∀ c ∈ m.rest.head?, ¬ Regex.isIn isValueChar c = true := by
    intro m h
    obtain ⟨htext, hmatches⟩ := Regex.matches_of_first h
    obtain ⟨hprev, n, s, v, htaken, hn, hs, hv, hg⟩ := header_matches_iff.mp hmatches
    refine ⟨hprev, n, s, v, ?_, htaken, hg, hn, hs, hv, Regex.not_isIn_of_first_many
      (.seq _ (.seq _ (.seq _ (.seq _ (.seq _ .refl))))) h⟩
    rw [← htext, htaken, List.append_assoc, List.append_assoc]
  refine ⟨hfound, ?_⟩
  rintro ⟨hprev, n, s, v, htext, htaken, hg, hn, hs, hv, hrest⟩
  have hmatches : headerPattern.Matches W.isWord prev (n ++ (s ++ v)) m.rest [n, s] :=
    header_matches_iff.mpr ⟨hprev, n, s, v, rfl, hn, hs, hv, rfl⟩
  obtain ⟨m', hm'⟩ := Regex.exists_first hmatches
  rw [List.append_assoc, List.append_assoc, ← htext] at hm'
  obtain ⟨-, n', s', v', htext', htaken', hg', hn', hs', hv', hrest'⟩ := hfound hm'
  have hhead : ∀ {v z : List χ}, v ≠ [] → (∀ c ∈ v, Regex.isIn isValueChar c = true) →
      ∀ c ∈ (v ++ z).head?, Regex.isIn isValueChar c = true := by
    intro v z hne hv c hc
    obtain ⟨d, t, rfl⟩ := List.exists_cons_of_ne_nil hne
    exact Option.some.inj hc ▸ hv d List.mem_cons_self
  -- the parts are the same
  rw [htext] at htext'
  obtain ⟨rfl, h₁⟩ := name_unique hn hn' htext'
  obtain ⟨rfl, h₂⟩ := separator_unique hs hs' (hhead hv.1 hv.2) (hhead hv'.1 hv'.2) h₁
  obtain ⟨rfl, h₃⟩ := Regex.span_unique hv.2 hv'.2 hrest hrest' h₂
  obtain ⟨taken, rest, groups⟩ := m
  obtain ⟨taken', rest', groups'⟩ := m'
  subst htaken htaken' hg hg' h₃
  exact hm'

/-! ### The code points of what is written -/

theorem codes_redacted : codes (redacted : List χ) = redacted := by
  have hcode : (HasCode.code : χ → ℕ) ∘ Writable.ofCode = id := funext Writable.code_ofCode
  rw [redacted, codes, List.map_map, hcode, redacted]
  rfl

theorem bearer_agrees : Pass.Agrees (bearer W : Pass χ) (bearer W) :=
  Regex.pass_agrees _ _ _ fun _ => codes_redacted

theorem jwt_agrees : Pass.Agrees (jwt W : Pass χ) (jwt W) :=
  Regex.pass_agrees _ _ _ fun _ => codes_redacted

theorem accessKey_agrees : Pass.Agrees (accessKey W : Pass χ) (accessKey W) :=
  Regex.pass_agrees _ _ _ fun _ => codes_redacted

theorem header_agrees : Pass.Agrees (header W : Pass χ) (header W) := by
  refine Regex.pass_agrees _ _ _ fun m => ?_
  have hflatten : codes m.groups.flatten = m.toCodes.groups.flatten := List.map_flatten
  rw [codes_append, hflatten, codes_redacted]

theorem secretPatterns_agree :
    List.Forall₂ Pass.Agrees (secretPatterns W : List (Pass χ)) (secretPatterns W) :=
  .cons bearer_agrees (.cons jwt_agrees (.cons accessKey_agrees (.cons header_agrees .nil)))

/-- **The redaction looks at the code points alone.** -/
theorem codes_redactText (text : List χ) :
    codes (redactText W text) = redactText W (codes text) := by
  calc codes (redactText W text)
    _ = (header W).sub none (codes ((accessKey W).sub none ((jwt W).sub none
          ((bearer W).sub none text)))) := (header_agrees.sub none _).symm
    _ = (header W).sub none ((accessKey W).sub none (codes ((jwt W).sub none
          ((bearer W).sub none text)))) := by
      rw [← accessKey_agrees.sub none]
      rfl
    _ = (header W).sub none ((accessKey W).sub none ((jwt W).sub none
          (codes ((bearer W).sub none text)))) := by
      rw [← jwt_agrees.sub none]
      rfl
    _ = redactText W (codes text) := by
      rw [← bearer_agrees.sub none]
      rfl

end Found

/-- The values that are logged, with keys and other objects of any types. -/
inductive LogValue (κ ο : Type)
  | str (s : List ℕ)
  | tuple (items : List (LogValue κ ο))
  | list (items : List (LogValue κ ο))
  | dict (items : List (κ × LogValue κ ο))
  | other (value : ο)

section Values

variable {κ ο : Type} (W : WordTable)

mutual

/-- `redact_log_value` -/
def redactLogValue : LogValue κ ο → LogValue κ ο
  | .str s => .str (redactText W s)
  | .tuple items => .tuple (redactItems items)
  | .list items => .list (redactItems items)
  | .dict items => .dict (redactEntries items)
  | .other value => .other value

def redactItems : List (LogValue κ ο) → List (LogValue κ ο)
  | [] => []
  | item :: items => redactLogValue item :: redactItems items

def redactEntries : List (κ × LogValue κ ο) → List (κ × LogValue κ ο)
  | [] => []
  | (key, item) :: items => (key, redactLogValue item) :: redactEntries items

end

end Values

/-- A record, with what its message is written as. -/
structure LogRecord where
  /-- `str(record.msg)` -/
  msg : List ℕ
  /-- `record.getMessage()`, if that raises no exception -/
  getMessage : Option (List ℕ)

/-- `SecretRedactionFilter.filter`: the record afterwards. It has no arguments, and so its message
is written as it is. -/
def filter (W : WordTable) (record : LogRecord) : LogRecord :=
  let message := record.getMessage.getD record.msg
  { msg := redactText W message
    getMessage := some (redactText W message) }

end NextBallUp.Logging
