import NextBallUp.Auth.Totp
import NextBallUp.Lib.Exceptions
import NextBallUp.Lib.Numerals
import NextBallUp.Lib.Texts

/-!
# One-time codes as texts

The check of a submitted code on the texts that Python has: any code points may be submitted, what
is a digit is said by the Unicode database, and two texts are compared in constant time only if both
are ASCII. Of the counters whose code is the submitted one the first is taken, though it may have
been used before and a later one not.

## Main definitions

* `hotp`, `verifyTotpCode`: the code of a counter, and the check
* `requireMfaForLogin`: what login makes of it
* `Matches`: a counter for which a code is to be accepted
* `IsSafe`: what a code has to be for the check to be right

## Main results

* `verifyTotpCode_iff`: **when the check is total and exact**
* `exists_typeError`: superscript digits
* `verifyTotpCode_toNat`: for an ASCII code this is the check of the sessions
-/

namespace NextBallUp.Mfa

open Auth (verifyWindow)

/-- The Unicode database, and the functions of `hashlib` and `hmac`. -/
structure Platform where
  /-- The `Numeric_Type` is `Digit` or `Decimal`. -/
  isDigit : ℕ → Bool
  isDigit_iff : ∀ c < 128, isDigit c = true ↔ 48 ≤ c ∧ c ≤ 57
  upper : ℕ → List ℕ
  hmacSha1 : List ℕ → List ℕ → Vector (Fin 256) 20
  /-- `hash_recovery_code` under the pepper. -/
  hashRecoveryCode : List ℕ → List ℕ

inductive Failure
  /-- A secret that is no base32 text. -/
  | valueError
  /-- `struct.error` -/
  | structError
  /-- `hmac.compare_digest` of a text that is not ASCII. -/
  | typeError
  deriving DecidableEq, Repr

variable (P : Platform)

/-! ### The secret -/

/-- `_normalise_b32` -/
def normaliseB32 (secretB32 : List ℕ) : List ℕ :=
  let cleaned := (secretB32.filter fun c => c ≠ 32 ∧ c ≠ 45).flatMap P.upper
  cleaned ++ List.replicate ((8 - cleaned.length % 8) % 8) 61

def base32Value (c : ℕ) : Option ℕ :=
  if 65 ≤ c ∧ c ≤ 90 then some (c - 65)
  else if 50 ≤ c ∧ c ≤ 55 then some (c - 24)
  else none

/-- `base64.b32decode` -/
def b32decode (s : List ℕ) : Except Failure (List ℕ) :=
  let body := s.rdropWhile (· = 61)
  let padchars := s.length - body.length
  match body.mapM base32Value with
  | some values =>
    if s.length % 8 = 0 ∧ padchars ∈ [0, 1, 3, 4, 6] then
      .ok (bigEndian (5 * values.length / 8)
        (values.foldl (fun n v => n * 32 + v) 0 / 2 ^ (5 * values.length % 8)))
    else .error .valueError
  | none => .error .valueError

/-! ### The check -/

/-- `struct.pack(">Q", counter)` -/
def pack (counter : ℤ) : Except Failure (List ℕ) :=
  if 0 ≤ counter ∧ counter < 2 ^ 64 then .ok (bigEndian 8 counter.toNat) else .error .structError

/-- The four bytes of a digest that begin where its last four bits say. -/
def dynamicBytes (digest : Vector (Fin 256) 20) : List (Fin 256) :=
  (digest.toList.drop (digest[19].val % 16)).take 4

/-- `code_int` -/
def truncate (digest : Vector (Fin 256) 20) : ℕ :=
  (dynamicBytes digest).foldl (fun n b => n * 256 + b.val) 0 % 2 ^ 31

/-- `str(n).zfill(digits)` -/
def zfill (digits n : ℕ) : List ℕ :=
  List.replicate (digits - (decimal n).length) 48 ++ decimal n

/-- The code of a digest. -/
def ofDigest (digits : ℕ) (digest : Vector (Fin 256) 20) : List ℕ :=
  zfill digits (truncate digest % 10 ^ digits)

/-- `_hotp` -/
def hotp (key : List ℕ) (digits : ℕ) (counter : ℤ) : Except Failure (List ℕ) := do
  let counterBytes ← pack counter
  return ofDigest digits (P.hmacSha1 key counterBytes)

structure TotpVerification where
  accepted : Bool
  matchedCounter : Option ℤ
  deriving DecidableEq, Repr

/-- `hmac.compare_digest(expected, code)` -/
def compareDigest (expected code : List ℕ) : Except Failure Bool :=
  if expected.all (· < 128) ∧ code.all (· < 128) then .ok (expected = code) else .error .typeError

/-- The counters of the window. -/
def counters (base : ℤ) : List ℤ :=
  (List.range (2 * verifyWindow + 1)).map fun delta : ℕ => base + (delta - verifyWindow)

/-- The loop over `expected_codes`. -/
def firstMatch (code : List ℕ) (lastUsedCounter : Option ℤ) :
    List (ℤ × List ℕ) → Except Failure TotpVerification
  | [] => .ok ⟨false, none⟩
  | (counter, expected) :: rest => do
    if ← compareDigest expected code then
      -- the same or an older counter has already been used
      if lastUsedCounter.any (counter ≤ ·) then return ⟨false, none⟩
      else return ⟨true, some counter⟩
    else firstMatch code lastUsedCounter rest

/-- The filter of the check: `code.isdigit()`, with the right length. -/
def IsAdmitted (digits : ℕ) (code : List ℕ) : Prop :=
  code ≠ [] ∧ code.all P.isDigit = true ∧ code.length = digits

instance (digits : ℕ) (code : List ℕ) : Decidable (IsAdmitted P digits code) :=
  inferInstanceAs (Decidable (_ ∧ _ ∧ _))

/-- `verify_totp_code` -/
def verifyTotpCode (secretB32 code : List ℕ) (stepSeconds digits : ℕ) (now : ℤ)
    (lastUsedCounter : Option ℤ) : Except Failure TotpVerification :=
  if IsAdmitted P digits code then do
    let key ← b32decode (normaliseB32 P secretB32)
    let expected ← (counters (now / stepSeconds)).mapM fun counter => do
      return (counter, ← hotp P key digits counter)
    firstMatch code lastUsedCounter expected
  else .ok ⟨false, none⟩

/-! ### Login -/

/-- A confirmed row of `user_totp_secrets`, with its secret decrypted. -/
structure UserTotpSecret where
  secretB32 : List ℕ
  lastUsedAt : Option ℤ
  deriving DecidableEq, Repr

structure MfaRecoveryCode where
  codeHash : List ℕ
  usedAt : Option ℤ
  deriving DecidableEq, Repr

inductive LoginStep
  | notEnabled
  | codeRequired
  /-- What is stored in `last_used_at`. -/
  | accepted (lastUsedAt : ℤ)
  /-- The recovery code that is used up, or an invalid code. -/
  | recovery (used : Option MfaRecoveryCode)
  deriving DecidableEq, Repr

/-- The branch of the recovery codes. -/
def recoveryStep (recoveryCodes : List MfaRecoveryCode) (submitted : List ℕ) : LoginStep :=
  .recovery (recoveryCodes.find? fun r =>
    r.codeHash = P.hashRecoveryCode submitted ∧ r.usedAt = none)

/-- `_require_mfa_for_login_if_enabled` -/
def requireMfaForLogin (record : Option UserTotpSecret) (recoveryCodes : List MfaRecoveryCode)
    (code : Option (List ℕ)) (stepSeconds digits : ℕ) (now : ℤ) : Except Failure LoginStep :=
  match record with
  | none => .ok .notEnabled
  | some record =>
    match code with
    | none | some [] => .ok .codeRequired
    | some code => do
      let submitted := strip isWhitespace code
      let lastCounter := record.lastUsedAt.map (· / (stepSeconds : ℤ))
      let verification ←
        verifyTotpCode P record.secretB32 submitted stepSeconds digits now lastCounter
      match verification with
      | ⟨true, some counter⟩ => return .accepted (counter * stepSeconds)
      | _ => return recoveryStep P recoveryCodes submitted

/-! ### Codes -/

variable {P} {key code submitted : List ℕ} {digits stepSeconds : ℕ} {base now counter : ℤ}
  {lastUsedCounter : Option ℤ}

theorem length_zfill {n : ℕ} (hdigits : 0 < digits) (h : n < 10 ^ digits) :
    (zfill digits n).length = digits := by
  have hle := (length_decimal_le_iff hdigits).mpr h
  rw [zfill, List.length_append, List.length_replicate]
  omega

theorem digit_of_mem_zfill {n c : ℕ} (h : c ∈ zfill digits n) : 48 ≤ c ∧ c ≤ 57 := by
  rcases List.mem_append.mp h with h | h
  · rw [List.eq_of_mem_replicate h]
    decide
  · exact digit_of_mem_decimal h

/-- The codes of digests are admitted. -/
theorem isAdmitted_ofDigest (P : Platform) (hdigits : 0 < digits) (digest : Vector (Fin 256) 20) :
    IsAdmitted P digits (ofDigest digits digest) := by
  have hlength : (ofDigest digits digest).length = digits :=
    length_zfill hdigits (Nat.mod_lt _ (Nat.pow_pos (by decide)))
  refine ⟨fun hnil => ?_, List.all_eq_true.mpr fun c hc => ?_, hlength⟩
  · rw [hnil] at hlength
    exact hdigits.ne hlength
  · have hdigit := digit_of_mem_zfill hc
    exact (P.isDigit_iff c (by omega)).mpr hdigit

theorem all_lt_ofDigest (digits : ℕ) (digest : Vector (Fin 256) 20) :
    (ofDigest digits digest).all (· < 128) = true := by
  rw [List.all_eq_true]
  intro c hc
  have hdigit := digit_of_mem_zfill hc
  exact decide_eq_true (by omega)

theorem hotp_eq (P : Platform) (key : List ℕ) (digits : ℕ) (h : 0 ≤ counter ∧ counter < 2 ^ 64) :
    hotp P key digits counter =
      .ok (ofDigest digits (P.hmacSha1 key (bigEndian 8 counter.toNat))) := by
  rw [hotp, pack, if_pos h]
  rfl

/-- Only codes of digests are codes of counters. -/
theorem isAdmitted_of_hotp (hdigits : 0 < digits) (h : hotp P key digits counter = .ok code) :
    IsAdmitted P digits code ∧ code.all (· < 128) = true := by
  by_cases hrange : 0 ≤ counter ∧ counter < 2 ^ 64
  · rw [hotp_eq P key digits hrange] at h
    obtain rfl := Except.ok.inj h
    exact ⟨isAdmitted_ofDigest P hdigits _, all_lt_ofDigest digits _⟩
  · rw [hotp, pack, if_neg hrange] at h
    cases h

/-! ### The window -/

theorem counters_eq (base : ℤ) : counters base = [base - 1, base, base + 1] := by
  simp [counters, verifyWindow, List.range_succ]
  omega

theorem mem_counters : counter ∈ counters base ↔ base - 1 ≤ counter ∧ counter ≤ base + 1 := by
  simp only [counters_eq, List.mem_cons, List.not_mem_nil, or_false]
  omega

/-- The counters are tried from the smallest on. -/
theorem pairwise_counters (base : ℤ) : (counters base).Pairwise (· < ·) := by
  simp only [counters_eq, List.pairwise_cons, List.mem_cons, List.not_mem_nil, or_false]
  refine ⟨?_, ?_, fun _ h => h.elim, List.Pairwise.nil⟩
  · omega
  · omega

/-- The code of a counter that can be packed. -/
def codeOf (P : Platform) (key : List ℕ) (digits : ℕ) (counter : ℤ) : List ℕ :=
  ofDigest digits (P.hmacSha1 key (bigEndian 8 counter.toNat))

theorem mapM_hotp (P : Platform) (key : List ℕ) (digits : ℕ) {l : List ℤ}
    (h : ∀ counter ∈ l, 0 ≤ counter ∧ counter < 2 ^ 64) :
    (l.mapM fun counter => do return (counter, ← hotp P key digits counter)) =
      Except.ok (l.map fun counter => (counter, codeOf P key digits counter)) := by
  induction l with
  | nil => rfl
  | cons counter l ih =>
    rw [List.mapM_cons, ih fun c hc => h c (List.mem_cons_of_mem _ hc),
      hotp_eq P key digits (h counter List.mem_cons_self)]
    rfl

/-- One counter that cannot be packed is enough. -/
theorem mapM_hotp_ne_ok {l : List ℤ} (hmem : counter ∈ l) (h : ¬ (0 ≤ counter ∧ counter < 2 ^ 64))
    (expected : List (ℤ × List ℕ)) :
    (l.mapM fun counter => do return (counter, ← hotp P key digits counter)) ≠
      Except.ok expected := by
  induction l generalizing expected with
  | nil => cases hmem
  | cons c l ih =>
    rw [List.mapM_cons]
    intro hok
    obtain ⟨first, hfirst, hok⟩ := Except.exists_of_bind_eq_ok hok
    obtain ⟨rest, hrest, -⟩ := Except.exists_of_bind_eq_ok hok
    rcases List.mem_cons.mp hmem with rfl | hmem
    · rw [hotp, pack, if_neg h] at hfirst
      cases hfirst
    · exact ih hmem rest hrest

/-! ### The loop -/

/-- What the check says of the first counter that has the code. -/
def conclusion (lastUsedCounter : Option ℤ) : Option ℤ → TotpVerification
  | none => ⟨false, none⟩
  | some counter =>
    if lastUsedCounter.any (counter ≤ ·) then ⟨false, none⟩ else ⟨true, some counter⟩

theorem firstMatch_eq (hascii : code.all (· < 128) = true) (l : List ℤ) :
    firstMatch code lastUsedCounter (l.map fun counter => (counter, codeOf P key digits counter)) =
      .ok (conclusion lastUsedCounter
        (l.find? fun counter => codeOf P key digits counter = code)) := by
  induction l with
  | nil => rfl
  | cons counter l ih =>
    have hcompare : compareDigest (codeOf P key digits counter) code =
        .ok (codeOf P key digits counter = code) := if_pos ⟨all_lt_ofDigest digits _, hascii⟩
    rw [List.map_cons, firstMatch, hcompare]
    by_cases hcode : codeOf P key digits counter = code
    · rw [List.find?_cons_of_pos (p := fun c => codeOf P key digits c = code)
        (decide_eq_true hcode), decide_eq_true hcode, conclusion]
      exact (apply_ite Except.ok _ _ _).symm
    · rw [List.find?_cons_of_neg (p := fun c => codeOf P key digits c = code)
        (mt of_decide_eq_true hcode), decide_eq_false hcode, ← ih]
      rfl

/-! ### When the check is right -/

/-- A counter for which a code is to be accepted: within one step of the present one, later than the
last one that was used, and the code is its code. -/
structure Matches (P : Platform) (key : List ℕ) (digits : ℕ) (base : ℤ) (lastUsedCounter : Option ℤ)
    (code : List ℕ) (counter : ℤ) : Prop where
  inWindow : base - 1 ≤ counter ∧ counter ≤ base + 1
  fresh : ∀ used ∈ lastUsedCounter, used < counter
  isCode : hotp P key digits counter = .ok code

/-- The check returns, and accepts the codes of counters that match, with such a counter. -/
def IsExact (P : Platform) (key secretB32 code : List ℕ) (stepSeconds digits : ℕ) (now : ℤ)
    (lastUsedCounter : Option ℤ) : Prop :=
  ∃ verification, verifyTotpCode P secretB32 code stepSeconds digits now lastUsedCounter =
      .ok verification ∧
    (verification.accepted = true ↔
      ∃ counter, Matches P key digits (now / stepSeconds) lastUsedCounter code counter) ∧
    (verification.accepted = true → ∃ counter, verification.matchedCounter = some counter ∧
      Matches P key digits (now / stepSeconds) lastUsedCounter code counter)

/-- A code that no counter matches is looked up among the recovery codes. -/
def FallsBack (P : Platform) (key secretB32 code : List ℕ) (stepSeconds digits : ℕ) (now : ℤ)
    (lastUsedCounter : Option ℤ) : Prop :=
  ∀ (record : UserTotpSecret) recoveryCodes text, record.secretB32 = secretB32 →
    record.lastUsedAt.map (· / (stepSeconds : ℤ)) = lastUsedCounter → text ≠ [] →
    strip isWhitespace text = code →
    (¬ ∃ counter, Matches P key digits (now / stepSeconds) lastUsedCounter code counter) →
    requireMfaForLogin P (some record) recoveryCodes (some text) stepSeconds digits now =
      .ok (recoveryStep P recoveryCodes code)

/-- The digits of the code are ASCII digits, the counters have 64 bits, and no counter that has been
used up has the same code as a later one of the window that has not. -/
structure IsSafe (P : Platform) (key : List ℕ) (digits : ℕ) (base : ℤ) (lastUsedCounter : Option ℤ)
    (code : List ℕ) : Prop where
  isAscii : IsAdmitted P digits code → code.all (· < 128) = true
  inRange : IsAdmitted P digits code → base + 1 < 2 ^ 64
  fresh : ∀ counter counter', base - 1 ≤ counter → counter' ≤ base + 1 →
    hotp P key digits counter = .ok code → hotp P key digits counter' = .ok code →
    ∀ used ∈ lastUsedCounter, counter ≤ used → counter' ≤ used

/-- In an ascending list the first counter that has the code is the smallest one. -/
theorem le_of_find? {l : List ℤ} (hl : l.Pairwise (· < ·)) {p : ℤ → Bool} {counter' : ℤ}
    (hfind : l.find? p = some counter) (hmem : counter' ∈ l) (hp : p counter' = true) :
    counter ≤ counter' := by
  obtain ⟨-, front, back, rfl, hfront⟩ := List.find?_eq_some_iff_append.mp hfind
  rcases List.mem_append.mp hmem with hmem | hmem
  · have hfalse := hfront counter' hmem
    rw [hp] at hfalse
    exact (Bool.false_ne_true hfalse).elim
  · rcases List.mem_cons.mp hmem with rfl | hmem
    · exact le_refl _
    · exact ((List.pairwise_cons.mp (List.pairwise_append.mp hl).2.1).1 counter' hmem).le

/-- To look at the first one only is right as long as none that is used up hides another one. -/
theorem conclusion_iff {l : List ℤ} (hl : l.Pairwise (· < ·)) (p : ℤ → Bool)
    (lastUsedCounter : Option ℤ) :
    (((conclusion lastUsedCounter (l.find? p)).accepted = true ↔
        ∃ counter ∈ l, p counter = true ∧ ∀ used ∈ lastUsedCounter, used < counter) ∧
      ((conclusion lastUsedCounter (l.find? p)).accepted = true →
        ∃ counter, (conclusion lastUsedCounter (l.find? p)).matchedCounter = some counter ∧
          counter ∈ l ∧ p counter = true ∧ ∀ used ∈ lastUsedCounter, used < counter)) ↔
    ∀ counter ∈ l, ∀ counter' ∈ l, p counter = true → p counter' = true →
      ∀ used ∈ lastUsedCounter, counter ≤ used → counter' ≤ used := by
  cases hfind : l.find? p with
  | none =>
    have hnone : ∀ counter ∈ l, ¬ p counter = true := List.find?_eq_none.mp hfind
    constructor
    · intro _ counter hmem _ _ hp
      exact (hnone counter hmem hp).elim
    · intro _
      refine ⟨⟨fun h => (Bool.false_ne_true h).elim, ?_⟩, fun h => (Bool.false_ne_true h).elim⟩
      rintro ⟨counter, hmem, hp, -⟩
      exact (hnone counter hmem hp).elim
  | some first =>
    have hmem : first ∈ l := List.mem_of_find?_eq_some hfind
    have hfirst : p first = true := List.find?_some hfind
    by_cases hused : lastUsedCounter.any (first ≤ ·) = true
    · obtain ⟨used, hlast, hle⟩ := (Option.any_eq_true _ _).mp hused
      have hle : first ≤ used := of_decide_eq_true hle
      rw [conclusion, if_pos hused]
      constructor
      · rintro ⟨hiff, -⟩ counter _ counter' hmem' _ hp' used' hused' _
        by_contra hlt
        refine Bool.false_ne_true (hiff.mpr ⟨counter', hmem', hp', fun u hu => ?_⟩)
        rw [Option.mem_unique hu hused']
        omega
      · intro hfresh
        refine ⟨⟨fun h => (Bool.false_ne_true h).elim, ?_⟩, fun h => (Bool.false_ne_true h).elim⟩
        rintro ⟨counter, hmem', hp', hlt⟩
        have hle' := hfresh first hmem counter hmem' hfirst hp' used hlast hle
        exact absurd (hlt used hlast) (not_lt.mpr hle')
    · have hlt : ∀ used ∈ lastUsedCounter, used < first := by
        intro used hlast
        by_contra hge
        exact hused ((Option.any_eq_true _ _).mpr ⟨used, hlast, decide_eq_true (not_lt.mp hge)⟩)
      rw [conclusion, if_neg hused]
      constructor
      · intro _ counter hmem' _ _ hp' _ used hlast hle
        exact absurd ((hlt used hlast).trans_le (le_of_find? hl hfind hmem' hp')) (not_lt.mpr hle)
      · intro _
        exact ⟨⟨fun _ => ⟨first, hmem, hfirst, hlt⟩, fun _ => rfl⟩,
          fun _ => ⟨first, rfl, hmem, hfirst, hlt⟩⟩

/-! ### The check -/

section

variable {secretB32 : List ℕ}

/-- What the check says, when nothing fails. -/
theorem verifyTotpCode_eq (hsecret : b32decode (normaliseB32 P secretB32) = .ok key)
    (hadmitted : IsAdmitted P digits code) (hascii : code.all (· < 128) = true)
    (hpos : 1 ≤ now / (stepSeconds : ℤ)) (hrange : now / (stepSeconds : ℤ) + 1 < 2 ^ 64) :
    verifyTotpCode P secretB32 code stepSeconds digits now lastUsedCounter =
      .ok (conclusion lastUsedCounter ((counters (now / stepSeconds)).find? fun counter =>
        codeOf P key digits counter = code)) := by
  have hwindow : ∀ counter ∈ counters (now / stepSeconds), 0 ≤ counter ∧ counter < 2 ^ 64 := by
    intro counter hmem
    rw [mem_counters] at hmem
    constructor
    · omega
    · omega
  have hexpected := mapM_hotp P key digits hwindow
  rw [verifyTotpCode, if_pos hadmitted, hsecret, ← firstMatch_eq hascii]
  exact congrArg (· >>= firstMatch code lastUsedCounter) hexpected

/-- What it takes for the check to return. -/
theorem verifyTotpCode_eq_ok {verification : TotpVerification}
    (hsecret : b32decode (normaliseB32 P secretB32) = .ok key)
    (hadmitted : IsAdmitted P digits code)
    (h : verifyTotpCode P secretB32 code stepSeconds digits now lastUsedCounter =
      .ok verification) :
    code.all (· < 128) = true ∧ now / (stepSeconds : ℤ) + 1 < 2 ^ 64 := by
  rw [verifyTotpCode, if_pos hadmitted, hsecret] at h
  obtain ⟨_, hkey, h⟩ := Except.exists_of_bind_eq_ok h
  obtain rfl := Except.ok.inj hkey
  obtain ⟨expected, hexpected, h⟩ := Except.exists_of_bind_eq_ok h
  have hwindow : ∀ counter ∈ counters (now / stepSeconds), 0 ≤ counter ∧ counter < 2 ^ 64 := by
    intro counter hmem
    by_contra hrange
    exact mapM_hotp_ne_ok hmem hrange expected hexpected
  constructor
  · rw [mapM_hotp P key digits hwindow, counters_eq] at hexpected
    obtain rfl := Except.ok.inj hexpected
    obtain ⟨equal, hcompare, -⟩ := Except.exists_of_bind_eq_ok h
    rw [compareDigest] at hcompare
    split_ifs at hcompare with hascii
    exact hascii.2
  · exact (hwindow _ (mem_counters.mpr ⟨by omega, le_refl _⟩)).2

theorem matches_iff (hpos : 1 ≤ base) (hrange : base + 1 < 2 ^ 64) :
    Matches P key digits base lastUsedCounter code counter ↔
      counter ∈ counters base ∧ decide (codeOf P key digits counter = code) = true ∧
        ∀ used ∈ lastUsedCounter, used < counter := by
  rw [mem_counters, decide_eq_true_iff]
  constructor
  · rintro ⟨hwindow, hfresh, hcode⟩
    rw [hotp_eq P key digits (by omega)] at hcode
    exact ⟨hwindow, Except.ok.inj hcode, hfresh⟩
  · rintro ⟨hwindow, hcode, hfresh⟩
    exact ⟨hwindow, hfresh, (hotp_eq P key digits (by omega)).trans (congrArg _ hcode)⟩

/-- A code that is filtered out is none of a counter. -/
theorem not_matches (hdigits : 0 < digits) (hadmitted : ¬ IsAdmitted P digits code) :
    ¬ ∃ counter, Matches P key digits base lastUsedCounter code counter := by
  rintro ⟨counter, h⟩
  exact hadmitted (isAdmitted_of_hotp hdigits h.isCode).1

/-- **When the check is total and exact.** -/
theorem isExact_iff (hsecret : b32decode (normaliseB32 P secretB32) = .ok key)
    (hdigits : 0 < digits) (hpos : 1 ≤ now / (stepSeconds : ℤ)) :
    IsExact P key secretB32 code stepSeconds digits now lastUsedCounter ↔
      IsSafe P key digits (now / stepSeconds) lastUsedCounter code := by
  by_cases hadmitted : IsAdmitted P digits code
  · constructor
    · rintro ⟨verification, hcheck, hexact⟩
      obtain ⟨hascii, hrange⟩ := verifyTotpCode_eq_ok hsecret hadmitted hcheck
      rw [verifyTotpCode_eq hsecret hadmitted hascii hpos hrange] at hcheck
      obtain rfl := Except.ok.inj hcheck
      simp only [matches_iff hpos hrange] at hexact
      have hfresh := (conclusion_iff (pairwise_counters _) _ _).mp hexact
      refine ⟨fun _ => hascii, fun _ => hrange, fun counter counter' hge hle hcode hcode' => ?_⟩
      intro used hlast hused
      by_contra hlt
      rw [hotp_eq P key digits (by omega)] at hcode hcode'
      exact hlt (hfresh counter (mem_counters.mpr ⟨hge, by omega⟩) counter'
        (mem_counters.mpr ⟨by omega, hle⟩) (decide_eq_true (Except.ok.inj hcode))
        (decide_eq_true (Except.ok.inj hcode')) used hlast hused)
    · intro hsafe
      have hascii := hsafe.isAscii hadmitted
      have hrange := hsafe.inRange hadmitted
      refine ⟨_, verifyTotpCode_eq hsecret hadmitted hascii hpos hrange, ?_⟩
      simp only [matches_iff hpos hrange]
      refine (conclusion_iff (pairwise_counters _) _ _).mpr
        fun counter hmem counter' hmem' hp hp' => ?_
      have hwindow := mem_counters.mp hmem
      have hwindow' := mem_counters.mp hmem'
      refine hsafe.fresh counter counter' hwindow.1 hwindow'.2 ?_ ?_
      · exact (hotp_eq P key digits (by omega)).trans (congrArg _ (of_decide_eq_true hp))
      · exact (hotp_eq P key digits (by omega)).trans (congrArg _ (of_decide_eq_true hp'))
  · have hcheck : verifyTotpCode P secretB32 code stepSeconds digits now lastUsedCounter =
        .ok ⟨false, none⟩ := if_neg hadmitted
    constructor
    · intro _
      exact ⟨fun h => (hadmitted h).elim, fun h => (hadmitted h).elim, fun counter _ _ _ hcode =>
        (hadmitted (isAdmitted_of_hotp hdigits hcode).1).elim⟩
    · intro _
      exact ⟨_, hcheck, ⟨fun h => (Bool.false_ne_true h).elim,
        fun h => (not_matches hdigits hadmitted h).elim⟩, fun h => (Bool.false_ne_true h).elim⟩

/-- Where the check is exact, login goes on with the recovery codes. -/
theorem IsExact.fallsBack
    (h : IsExact P key secretB32 code stepSeconds digits now lastUsedCounter) :
    FallsBack P key secretB32 code stepSeconds digits now lastUsedCounter := by
  rintro record recoveryCodes text rfl rfl hne rfl hnone
  obtain ⟨verification, hcheck, hiff, -⟩ := h
  obtain ⟨c, text, rfl⟩ := List.exists_cons_of_ne_nil hne
  have hrejected : verification.accepted = false := by
    by_contra haccepted
    exact hnone (hiff.mp (Bool.eq_true_of_not_eq_false haccepted))
  obtain ⟨accepted, matched⟩ := verification
  obtain rfl : accepted = false := hrejected
  show (verifyTotpCode _ _ _ _ _ _ _ >>= _) = _
  rw [hcheck]
  rfl

/-- **When the check is right**, and login goes on with the recovery codes wherever it has to. -/
theorem verifyTotpCode_iff (hsecret : b32decode (normaliseB32 P secretB32) = .ok key)
    (hdigits : 0 < digits) (hstep : 0 < stepSeconds) (hnow : stepSeconds ≤ now) :
    IsExact P key secretB32 code stepSeconds digits now lastUsedCounter ∧
        FallsBack P key secretB32 code stepSeconds digits now lastUsedCounter ↔
      IsSafe P key digits (now / stepSeconds) lastUsedCounter code := by
  have hpos : 1 ≤ now / (stepSeconds : ℤ) := by
    rw [Int.le_ediv_iff_mul_le (by omega)]
    omega
  rw [← isExact_iff hsecret hdigits hpos]
  exact ⟨And.left, fun h => ⟨h, h.fallsBack⟩⟩

end

/-! ### ASCII codes -/

section

variable {S : Auth.Settings} {secret : Auth.Secret} {text : Auth.Code}

theorem map_toNat_inj {l l' : List Char} : l.map Char.toNat = l'.map Char.toNat ↔ l = l' :=
  List.map_inj_right (fun _ _ h => Char.toNat_inj.mp h)

theorem map_toNat_zfill (digits n : ℕ) : (Auth.zfill digits n).map Char.toNat = zfill digits n := by
  rw [Auth.zfill, zfill, decimal, List.map_append, List.map_replicate, List.length_map]
  rfl

theorem map_toNat_hotp {counter : ℕ}
    (h : S.truncatedHmac secret counter = truncate (P.hmacSha1 key (bigEndian 8 counter))) :
    (Auth.hotp S secret counter).map Char.toNat = codeOf P key S.mfaTotpDigits counter := by
  rw [Auth.hotp, map_toNat_zfill, h]
  rfl

theorem isDigit_iff_toNat (c : Char) : c.isDigit = true ↔ 48 ≤ c.toNat ∧ c.toNat ≤ 57 := by
  simp [Char.isDigit, UInt32.le_iff_toNat_le]

theorem isAdmitted_map_toNat (P : Platform) (hascii : ∀ c ∈ text, c.toNat < 128) :
    IsAdmitted P S.mfaTotpDigits (text.map Char.toNat) ↔
      text.all Char.isDigit = true ∧ text.length = S.mfaTotpDigits := by
  have hall : (text.map Char.toNat).all P.isDigit = true ↔ text.all Char.isDigit = true := by
    rw [List.all_map, List.all_eq_true, List.all_eq_true]
    refine forall₂_congr fun c hc => ?_
    rw [isDigit_iff_toNat]
    exact P.isDigit_iff _ (hascii c hc)
  rw [IsAdmitted, hall, List.length_map]
  constructor
  · exact And.right
  · rintro ⟨hdigits, hlength⟩
    refine ⟨fun hnil => ?_, hdigits, hlength⟩
    have := S.mfaTotpDigits_ge
    rw [List.map_eq_nil_iff.mp hnil, List.length_nil] at hlength
    omega

theorem counters_natCast {base : ℕ} (h : 1 ≤ base) :
    counters base = (Auth.window base).map fun counter : ℕ => (counter : ℤ) := by
  rw [counters, Auth.window, List.map_map]
  refine List.map_congr_left fun delta _ => ?_
  simp [verifyWindow]
  omega

theorem conclusion_natCast (lastUsedCounter found : Option ℕ) :
    conclusion (lastUsedCounter.map fun counter : ℕ => (counter : ℤ))
        (found.map fun counter : ℕ => (counter : ℤ)) =
      ⟨(found.filter fun c => lastUsedCounter.all (· < c)).isSome,
        (found.filter fun c => lastUsedCounter.all (· < c)).map fun counter : ℕ =>
          (counter : ℤ)⟩ := by
  cases found with
  | none => rfl
  | some counter =>
    cases lastUsedCounter with
    | none => rfl
    | some used =>
      rcases Nat.lt_or_ge used counter with h | h
      · simp [conclusion, Option.filter, h]
      · simp [conclusion, Option.filter, h]

/-- **For an ASCII code this is the check of the sessions.** -/
theorem verifyTotpCode_toNat {secretB32 : List ℕ} {now : ℕ} {lastUsedCounter : Option ℕ}
    (hsecret : b32decode (normaliseB32 P secretB32) = .ok key)
    (hhmac : ∀ counter, S.truncatedHmac secret counter =
      truncate (P.hmacSha1 key (bigEndian 8 counter)))
    (hascii : ∀ c ∈ text, c.toNat < 128) (hnow : S.mfaTotpStepSeconds ≤ now)
    (hrange : now / S.mfaTotpStepSeconds + 1 < 2 ^ 64) :
    verifyTotpCode P secretB32 (text.map Char.toNat) S.mfaTotpStepSeconds S.mfaTotpDigits now
        (lastUsedCounter.map fun counter : ℕ => (counter : ℤ)) =
      .ok ⟨(Auth.verifyTotpCode S secret text now lastUsedCounter).isSome,
        (Auth.verifyTotpCode S secret text now lastUsedCounter).map fun counter : ℕ =>
          (counter : ℤ)⟩ := by
  have hbase : 1 ≤ now / S.mfaTotpStepSeconds :=
    (Nat.one_le_div_iff (by have := S.mfaTotpStepSeconds_ge; omega)).mpr hnow
  rw [Auth.verifyTotpCode]
  split_ifs with hadmitted
  · have hascii' : (text.map Char.toNat).all (· < 128) = true := by
      rw [List.all_map, List.all_eq_true]
      exact fun c hc => decide_eq_true (hascii c hc)
    have hcode : (fun counter : ℤ => decide (codeOf P key S.mfaTotpDigits counter =
        text.map Char.toNat)) ∘ (fun counter : ℕ => (counter : ℤ)) =
          fun counter => decide (Auth.hotp S secret counter = text) := by
      funext counter
      rw [Function.comp_apply, ← map_toNat_hotp (hhmac counter), decide_eq_decide, map_toNat_inj]
    rw [verifyTotpCode_eq hsecret ((isAdmitted_map_toNat P hascii).mpr hadmitted) hascii'
      (by exact_mod_cast hbase) (by exact_mod_cast hrange), ← Int.natCast_ediv,
      counters_natCast hbase, List.find?_map, hcode, conclusion_natCast]
  · rw [verifyTotpCode, if_neg (mt (isAdmitted_map_toNat P hascii).mp hadmitted)]
    rfl

end

/-! ### Given codes -/

/-- The digests of the secret "12345678901234567890", and the first of the digits that are no ASCII
digits. -/
def sample : Platform where
  isDigit c := (48 ≤ c && c ≤ 57) || c = 178
  isDigit_iff c hc := by
    simp
    omega
  upper c := [c]
  hmacSha1 _ counterBytes :=
    if counterBytes = bigEndian 8 0 then
      #v[204, 147, 207, 24, 80, 141, 148, 147, 76, 100, 182, 93, 139, 167, 102, 127, 183, 205, 228,
        176]
    else if counterBytes = bigEndian 8 1 then
      #v[117, 164, 138, 25, 212, 203, 225, 0, 100, 78, 138, 193, 57, 126, 234, 116, 122, 45, 51,
        171]
    else
      #v[11, 172, 183, 250, 8, 47, 239, 48, 120, 34, 17, 147, 139, 193, 197, 231, 4, 22, 255, 68]
  hashRecoveryCode code := code

def sampleSecret : List ℕ := "GEZDGNBVGY3TQOJQGEZDGNBVGY3TQOJQ".toList.map Char.toNat

def sampleKey : List ℕ := "12345678901234567890".toList.map Char.toNat

theorem b32decode_sampleSecret : b32decode (normaliseB32 sample sampleSecret) = .ok sampleKey := by
  decide +kernel

/-- The code of the second counter, in the second step. -/
theorem exists_isExact :
    IsExact sample sampleKey sampleSecret [50, 56, 55, 48, 56, 50] 30 6 45 none := by
  refine ((verifyTotpCode_iff b32decode_sampleSecret (by decide) (by decide) (by decide)).mpr ?_).1
  exact ⟨fun _ => by decide, fun _ => by decide,
    fun _ _ _ _ _ _ used h => (Option.not_mem_none used h).elim⟩

/-- **Superscript digits.** -/
theorem exists_typeError :
    ∃ code secretB32 key, b32decode (normaliseB32 sample secretB32) = .ok key ∧
    verifyTotpCode sample secretB32 code 30 6 45 none = .error .typeError ∧
    requireMfaForLogin sample (some ⟨secretB32, none⟩) [] (some code) 30 6 45 = .error .typeError ∧
    ¬ (IsExact sample key secretB32 code 30 6 45 none ∧
      FallsBack sample key secretB32 code 30 6 45 none) := by
  have hcheck : verifyTotpCode sample sampleSecret (List.replicate 6 178) 30 6 45 none =
      .error .typeError := by
    decide +kernel
  refine ⟨List.replicate 6 178, sampleSecret, sampleKey, b32decode_sampleSecret, hcheck,
    by decide +kernel, ?_⟩
  rintro ⟨⟨verification, hok, -⟩, -⟩
  rw [hcheck] at hok
  cases hok

end NextBallUp.Mfa
