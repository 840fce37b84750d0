import NextBallUp.Lib.JsonText

/-!
# JSON texts as bytes

`json.loads` of bytes: the encoding is told from the first bytes, and surrogates are let through.

## Main definitions

* `detectEncoding`: `json.detect_encoding`
* `decodeBytes`: `bytes.decode(…, "surrogatepass")`
* `decodeStrict`: `bytes.decode()`
* `loadsBytes`: `json.loads(bytes)`

## Main results

* `loadsBytes_eq_loads`: ASCII bytes are the text itself, if neither of the first two is zero
-/

namespace JsonText

inductive Encoding
  | utf8
  /-- `utf-8-sig` -/
  | utf8Sig
  /-- `utf-16` and `utf-32`, whose first bytes say which. -/
  | utf16 | utf32
  | utf16Be | utf16Le | utf32Be | utf32Le
  deriving DecidableEq, Repr

/-- `json.detect_encoding` -/
def detectEncoding (b : List ℕ) : Encoding :=
  if [0, 0, 0xFE, 0xFF] <+: b ∨ [0xFF, 0xFE, 0, 0] <+: b then .utf32
  else if [0xFE, 0xFF] <+: b ∨ [0xFF, 0xFE] <+: b then .utf16
  else if [0xEF, 0xBB, 0xBF] <+: b then .utf8Sig
  else
    match b with
    | b₀ :: b₁ :: b₂ :: b₃ :: _ =>
      if b₀ = 0 then if b₁ = 0 then .utf32Be else .utf16Be
      else if b₁ = 0 then if b₂ = 0 ∧ b₃ = 0 then .utf32Le else .utf16Le
      else .utf8
    | [b₀, b₁] => if b₀ = 0 then .utf16Be else if b₁ = 0 then .utf16Le else .utf8
    | _ => .utf8

/-- A byte that continues a character. -/
def isContinuation (b : ℕ) : Bool := 0x80 ≤ b && b < 0xC0

def decodeUtf8 : List ℕ → Option (List ℕ)
  | [] => some []
  | a :: rest =>
    if a < 0x80 then (decodeUtf8 rest).map (a :: ·)
    else
      match rest with
      | [] => none
      | b :: rest =>
        if 0xC2 ≤ a ∧ a < 0xE0 ∧ isContinuation b then
          (decodeUtf8 rest).map (((a - 0xC0) * 0x40 + (b - 0x80)) :: ·)
        else
          match rest with
          | [] => none
          | c :: rest =>
            if 0xE0 ≤ a ∧ a < 0xF0 ∧ isContinuation b ∧ isContinuation c ∧
              (a = 0xE0 → 0xA0 ≤ b) then
              (decodeUtf8 rest).map
                (((a - 0xE0) * 0x1000 + (b - 0x80) * 0x40 + (c - 0x80)) :: ·)
            else
              match rest with
              | [] => none
              | d :: rest =>
                if 0xF0 ≤ a ∧ a < 0xF5 ∧ isContinuation b ∧ isContinuation c ∧ isContinuation d ∧
                    (a = 0xF0 → 0x90 ≤ b) ∧ (a = 0xF4 → b < 0x90) then
                  (decodeUtf8 rest).map (((a - 0xF0) * 0x40000 + (b - 0x80) * 0x1000 +
                    (c - 0x80) * 0x40 + (d - 0x80)) :: ·)
                else none

/-- The units of two bytes. -/
def units16 (bigEndian : Bool) : List ℕ → Option (List ℕ)
  | [] => some []
  | a :: b :: rest =>
    (units16 bigEndian rest).map ((if bigEndian then a * 0x100 + b else b * 0x100 + a) :: ·)
  | _ => none

/-- Pairs of surrogates are characters. -/
def joinSurrogates : List ℕ → List ℕ
  | a :: b :: rest =>
    if isHighSurrogate a && isLowSurrogate b then
      (0x10000 + (a - 0xD800) * 0x400 + (b - 0xDC00)) :: joinSurrogates rest
    else a :: joinSurrogates (b :: rest)
  | s => s

def decodeUtf16 (bigEndian : Bool) (b : List ℕ) : Option (List ℕ) :=
  (units16 bigEndian b).map joinSurrogates

def decodeUtf32 (bigEndian : Bool) : List ℕ → Option (List ℕ)
  | [] => some []
  | a :: b :: c :: d :: rest =>
    let unit :=
      if bigEndian then a * 0x1000000 + b * 0x10000 + c * 0x100 + d
      else d * 0x1000000 + c * 0x10000 + b * 0x100 + a
    if unit < 0x110000 then (decodeUtf32 bigEndian rest).map (unit :: ·) else none
  | _ => none

/-- `bytes.decode(encoding, "surrogatepass")`; `none` is a `UnicodeDecodeError`. -/
def decodeBytes (b : List ℕ) : Encoding → Option (List ℕ)
  | .utf8 => decodeUtf8 b
  | .utf8Sig => decodeUtf8 (b.drop 3)
  | .utf16 => decodeUtf16 (b.head? = some 0xFE) (b.drop 2)
  | .utf32 => decodeUtf32 (b.head? = some 0) (b.drop 4)
  | .utf16Be => decodeUtf16 true b
  | .utf16Le => decodeUtf16 false b
  | .utf32Be => decodeUtf32 true b
  | .utf32Le => decodeUtf32 false b

/-- `json.loads(bytes)` -/
def loadsBytes (recursionLimit : ℕ) (b : List ℕ) : Except LoadsError (Json CodePoint) :=
  match decodeBytes b (detectEncoding b) with
  | none => .error .valueError
  | some text => loads recursionLimit text

/-- `bytes.decode()`, which does not let surrogates through; `none` is a `UnicodeDecodeError`. -/
def decodeStrict (b : List ℕ) : Option (List ℕ) :=
  (decodeUtf8 b).filter fun text => text.all fun c => !(0xD800 ≤ c && c ≤ 0xDFFF)

theorem decodeUtf8_ascii {b : List ℕ} (h : ∀ c ∈ b, c < 0x80) : decodeUtf8 b = some b := by
  induction b with
  | nil => rfl
  | cons a rest ih =>
    rw [decodeUtf8.eq_def]
    dsimp only
    rw [if_pos (h a List.mem_cons_self), ih fun c hc => h c (List.mem_cons_of_mem _ hc)]
    rfl

theorem decodeStrict_ascii {b : List ℕ} (h : ∀ c ∈ b, c < 0x80) : decodeStrict b = some b := by
  rw [decodeStrict, decodeUtf8_ascii h, Option.filter_some, if_pos]
  rw [List.all_eq_true]
  intro c hc
  have hlt := h c hc
  simp only [Bool.not_eq_true', Bool.and_eq_false_iff, decide_eq_false_iff_not]
  omega

theorem detectEncoding_ascii {b₀ b₁ : ℕ} {rest : List ℕ} (h : ∀ c ∈ b₀ :: b₁ :: rest, c < 0x80)
    (h₀ : b₀ ≠ 0) (h₁ : b₁ ≠ 0) : detectEncoding (b₀ :: b₁ :: rest) = .utf8 := by
  have hlt : b₀ < 0x80 := h b₀ List.mem_cons_self
  have hbom {c : ℕ} {s : List ℕ} (hc : c = 0 ∨ 0x80 ≤ c) : ¬ c :: s <+: b₀ :: b₁ :: rest := by
    intro hp
    have he := (List.cons_prefix_cons.mp hp).1
    omega
  unfold detectEncoding
  rw [if_neg (not_or.mpr ⟨hbom (.inl rfl), hbom (.inr (by decide))⟩),
    if_neg (not_or.mpr ⟨hbom (.inr (by decide)), hbom (.inr (by decide))⟩),
    if_neg (hbom (.inr (by decide)))]
  match rest with
  | [] => exact (if_neg h₀).trans (if_neg h₁)
  | [_] => rfl
  | _ :: _ :: _ => exact (if_neg h₀).trans (if_neg h₁)

/-- **ASCII bytes are the text itself**, if neither of the first two is zero. -/
theorem loadsBytes_eq_loads {recursionLimit b₀ b₁ : ℕ} {rest : List ℕ}
    (h : ∀ c ∈ b₀ :: b₁ :: rest, c < 0x80) (h₀ : b₀ ≠ 0) (h₁ : b₁ ≠ 0) :
    loadsBytes recursionLimit (b₀ :: b₁ :: rest) = loads recursionLimit (b₀ :: b₁ :: rest) := by
  rw [loadsBytes, detectEncoding_ascii h h₀ h₁, decodeBytes, decodeUtf8_ascii h]

end JsonText
