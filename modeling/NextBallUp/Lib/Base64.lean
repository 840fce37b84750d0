import Mathlib.Data.List.DropRight
import Mathlib.Data.Nat.Notation
import Mathlib.Tactic.IntervalCases

/-!
# Base64

The URL-safe variant, as Python's `base64` has it: `urlsafe_b64encode`, and the lenient
`urlsafe_b64decode`, which passes over characters that are not in the alphabet and stops where the
padding is complete. Bytes are numbers below 256, and texts are sequences of code points.

## Main definitions

* `encode`, `decode`: the two functions
* `unpad`, `pad`: what writers do who leave the padding out, and readers who put it back
* `urlEncode`: the text without padding

## Main results

* `decode_encode`: **decoding what has been encoded gives the bytes back**
* `decode_pad_urlEncode`: also without the padding
* `length_urlEncode`: how long the texts are
-/

namespace Base64

/-! ### The alphabet -/

/-- The character that stands for six bits. -/
def digit (v : ℕ) : ℕ :=
  if v < 26 then 65 + v
  else if v < 52 then 71 + v
  else if v < 62 then v - 4
  else if v = 62 then 45
  else 95

/-- The six bits for which a character stands. The characters of the other variant are read, too. -/
def value (c : ℕ) : Option ℕ :=
  if 65 ≤ c ∧ c ≤ 90 then some (c - 65)
  else if 97 ≤ c ∧ c ≤ 122 then some (c - 71)
  else if 48 ≤ c ∧ c ≤ 57 then some (c + 4)
  else if c = 45 ∨ c = 43 then some 62
  else if c = 95 ∨ c = 47 then some 63
  else none

/-- A letter, a digit, `-` or `_`. -/
def IsDigit (c : ℕ) : Prop := ∃ v < 64, c = digit v

theorem value_digit {v : ℕ} (h : v < 64) : value (digit v) = some v := by
  interval_cases v <;> rfl

theorem digit_ne_pad {v : ℕ} (h : v < 64) : digit v ≠ 61 := by
  intro he
  have hv := value_digit h
  rw [he] at hv
  cases hv

theorem digit_lt {v : ℕ} (h : v < 64) : digit v < 128 := by
  unfold digit
  split_ifs <;> omega

theorem IsDigit.ne_pad {c : ℕ} (h : IsDigit c) : c ≠ 61 := by
  obtain ⟨v, hv, rfl⟩ := h
  exact digit_ne_pad hv

theorem IsDigit.lt {c : ℕ} (h : IsDigit c) : c < 128 := by
  obtain ⟨v, hv, rfl⟩ := h
  exact digit_lt hv

/-! ### Encoding -/

/-- The digits for a sequence of bytes. -/
def digits : List ℕ → List ℕ
  | [] => []
  | [a] => [digit (a / 4), digit (a % 4 * 16)]
  | [a, b] => [digit (a / 4), digit (a % 4 * 16 + b / 16), digit (b % 16 * 4)]
  | a :: b :: c :: rest =>
    digit (a / 4) :: digit (a % 4 * 16 + b / 16) :: digit (b % 16 * 4 + c / 64) ::
      digit (c % 64) :: digits rest

/-- Fill up with `=` to a multiple of four. -/
def pad (s : List ℕ) : List ℕ := s ++ List.replicate ((4 - s.length % 4) % 4) 61

/-- `s.rstrip("=")` -/
def unpad (s : List ℕ) : List ℕ := s.rdropWhile (· = 61)

/-- `base64.urlsafe_b64encode(bytes)` -/
def encode (bytes : List ℕ) : List ℕ := pad (digits bytes)

/-- `base64.urlsafe_b64encode(bytes).rstrip("=")` -/
def urlEncode (bytes : List ℕ) : List ℕ := unpad (encode bytes)

theorem length_digits (bytes : List ℕ) : (digits bytes).length = (4 * bytes.length + 2) / 3 := by
  induction bytes using digits.induct with
  | case1 => rfl
  | case2 a => simp [digits]
  | case3 a b => simp [digits]
  | case4 a b c rest ih =>
    simp only [digits, List.length_cons, ih]
    omega

theorem isDigit_of_mem_digits {bytes : List ℕ} (h : ∀ b ∈ bytes, b < 256) :
    ∀ c ∈ digits bytes, IsDigit c := by
  induction bytes using digits.induct with
  | case1 => simp [digits]
  | case2 a =>
    have ha := h a (by simp)
    intro c hc
    simp only [digits, List.mem_cons, List.not_mem_nil, or_false] at hc
    rcases hc with rfl | rfl
    · exact ⟨_, by omega, rfl⟩
    · exact ⟨_, by omega, rfl⟩
  | case3 a b =>
    have ha := h a (by simp)
    have hb := h b (by simp)
    intro c hc
    simp only [digits, List.mem_cons, List.not_mem_nil, or_false] at hc
    rcases hc with rfl | rfl | rfl
    · exact ⟨_, by omega, rfl⟩
    · exact ⟨_, by omega, rfl⟩
    · exact ⟨_, by omega, rfl⟩
  | case4 a b c rest ih =>
    have ha := h a (by simp)
    have hb := h b (by simp)
    have hc := h c (by simp)
    intro d hd
    simp only [digits, List.mem_cons] at hd
    rcases hd with rfl | rfl | rfl | rfl | hd
    · exact ⟨_, by omega, rfl⟩
    · exact ⟨_, by omega, rfl⟩
    · exact ⟨_, by omega, rfl⟩
    · exact ⟨_, by omega, rfl⟩
    · exact ih (fun x hx => h x (by simp [hx])) d hd

/-- Padding is all that is stripped from digits with padding. -/
theorem unpad_append {s : List ℕ} (h : ∀ c ∈ s, c ≠ 61) (n : ℕ) :
    unpad (s ++ List.replicate n 61) = s := by
  unfold unpad
  induction n with
  | zero =>
    rw [List.replicate_zero, List.append_nil]
    rw [List.rdropWhile_eq_self_iff]
    intro hs
    simpa using h _ (List.getLast_mem hs)
  | succ n ih =>
    rw [List.replicate_succ', ← List.append_assoc, List.rdropWhile_concat_pos _ _ _ (by simp), ih]

theorem urlEncode_eq {bytes : List ℕ} (h : ∀ b ∈ bytes, b < 256) :
    urlEncode bytes = digits bytes :=
  unpad_append (fun c hc => (isDigit_of_mem_digits h c hc).ne_pad) _

/-- What is written without padding are digits. -/
theorem isDigit_of_mem_urlEncode {bytes : List ℕ} (h : ∀ b ∈ bytes, b < 256) {c : ℕ}
    (hc : c ∈ urlEncode bytes) : IsDigit c := by
  rw [urlEncode_eq h] at hc
  exact isDigit_of_mem_digits h c hc

theorem length_urlEncode {bytes : List ℕ} (h : ∀ b ∈ bytes, b < 256) :
    (urlEncode bytes).length = (4 * bytes.length + 2) / 3 := by
  rw [urlEncode_eq h, length_digits]

/-! ### Decoding -/

/-- `binascii.a2b_base64` in the middle of a text. -/
structure Decoder where
  /-- How many digits of the current group of four have been read. -/
  quadPos : ℕ
  /-- The bits of the last digit that belong to the next byte. -/
  leftchar : ℕ
  /-- How many `=` have been read since. -/
  pads : ℕ
  bytes : List ℕ

/-- The decoder before the text. -/
def Decoder.start : Decoder := ⟨0, 0, 0, []⟩

/-- Six more bits. -/
def Decoder.push (d : Decoder) (v : ℕ) : Decoder :=
  match d.quadPos with
  | 0 => ⟨1, v, 0, d.bytes⟩
  | 1 => ⟨2, v % 16, 0, d.bytes ++ [d.leftchar * 4 + v / 16]⟩
  | 2 => ⟨3, v % 4, 0, d.bytes ++ [d.leftchar * 16 + v / 4]⟩
  | _ => ⟨0, 0, 0, d.bytes ++ [d.leftchar * 64 + v]⟩

/-- The rest of the text; `none` is a `binascii.Error`. -/
def Decoder.run (d : Decoder) : List ℕ → Option (List ℕ)
  | [] => if d.quadPos = 0 then some d.bytes else none
  | c :: rest =>
    if c = 61 then
      if d.quadPos < 2 then d.run rest
      else if 4 ≤ d.quadPos + (d.pads + 1) then some d.bytes
      else Decoder.run { d with pads := d.pads + 1 } rest
    else
      match value c with
      | none => d.run rest
      | some v => (d.push v).run rest

/-- `base64.urlsafe_b64decode(text)`; `none` is a `ValueError`. -/
def decode (text : List ℕ) : Option (List ℕ) :=
  if ∀ c ∈ text, c < 128 then Decoder.start.run text else none

theorem Decoder.run_digit {d : Decoder} {v : ℕ} (h : v < 64) (rest : List ℕ) :
    d.run (digit v :: rest) = (d.push v).run rest := by
  rw [Decoder.run, if_neg (digit_ne_pad h), value_digit h]

/-- From the beginning of a group the decoder reads the bytes that have been encoded. -/
theorem Decoder.run_encode {bytes : List ℕ} (h : ∀ b ∈ bytes, b < 256) (out : List ℕ) :
    Decoder.run ⟨0, 0, 0, out⟩ (encode bytes) = some (out ++ bytes) := by
  induction bytes using digits.induct generalizing out with
  | case1 => simp [encode, digits, pad, Decoder.run]
  | case2 a =>
    have ha := h a (by simp)
    have he : encode [a] = [digit (a / 4), digit (a % 4 * 16), 61, 61] := rfl
    have hbyte : a / 4 * 4 + a % 4 * 16 / 16 = a := by omega
    rw [he, run_digit (by omega), run_digit (by omega)]
    simp only [Decoder.push, hbyte]
    rfl
  | case3 a b =>
    have ha := h a (by simp)
    have hb := h b (by simp)
    have he : encode [a, b] =
        [digit (a / 4), digit (a % 4 * 16 + b / 16), digit (b % 16 * 4), 61] := rfl
    have hfirst : a / 4 * 4 + (a % 4 * 16 + b / 16) / 16 = a := by omega
    have hsecond : (a % 4 * 16 + b / 16) % 16 * 16 + b % 16 * 4 / 4 = b := by omega
    rw [he, run_digit (by omega), run_digit (by omega), run_digit (by omega)]
    simp only [Decoder.push, hfirst, hsecond, List.append_assoc]
    rfl
  | case4 a b c rest ih =>
    have ha := h a (by simp)
    have hb := h b (by simp)
    have hc := h c (by simp)
    have hpad : (digits (a :: b :: c :: rest)).length % 4 = (digits rest).length % 4 := by
      simp only [digits, List.length_cons]
      omega
    have he : encode (a :: b :: c :: rest) = digit (a / 4) :: digit (a % 4 * 16 + b / 16) ::
        digit (b % 16 * 4 + c / 64) :: digit (c % 64) :: encode rest := by
      rw [encode, pad, hpad]
      rfl
    have hfirst : a / 4 * 4 + (a % 4 * 16 + b / 16) / 16 = a := by omega
    have hsecond : (a % 4 * 16 + b / 16) % 16 * 16 + (b % 16 * 4 + c / 64) / 4 = b := by omega
    have hthird : (b % 16 * 4 + c / 64) % 4 * 64 + c % 64 = c := by omega
    rw [he, run_digit (by omega), run_digit (by omega), run_digit (by omega),
      run_digit (by omega)]
    simp only [Decoder.push, hfirst, hsecond, hthird]
    rw [ih fun x hx => h x (by simp [hx])]
    simp

theorem ascii_encode {bytes : List ℕ} (h : ∀ b ∈ bytes, b < 256) : ∀ c ∈ encode bytes, c < 128 := by
  intro c hc
  rcases List.mem_append.mp hc with hc | hc
  · exact (isDigit_of_mem_digits h c hc).lt
  · rw [List.eq_of_mem_replicate hc]
    decide

/-- **Decoding what has been encoded.** -/
theorem decode_encode {bytes : List ℕ} (h : ∀ b ∈ bytes, b < 256) :
    decode (encode bytes) = some bytes := by
  rw [decode, if_pos (ascii_encode h)]
  exact Decoder.run_encode h []

/-- The same when the padding has been left out and put back. -/
theorem decode_pad_urlEncode {bytes : List ℕ} (h : ∀ b ∈ bytes, b < 256) :
    decode (pad (urlEncode bytes)) = some bytes := by
  rw [urlEncode_eq h]
  exact decode_encode h

end Base64
